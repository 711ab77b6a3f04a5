import NeatPoS.Consensus.State

/-!
# The consensus state machine: transitions

The functions of `consensus/state.go` and `consensus/state1.go` that change the state, in the order
of the file: proposer selection, voting, the `enter…` functions from the last step of a round to
the first (each calls the next one), the message handlers, and `step`, which handles one input.

Every function keeps the guard, the order of effects and the deferred part of its source.  Results
that the source only logs (errors of handlers, `added` flags) are dropped.
-/

set_option autoImplicit false

namespace NeatPoS

open Stateful

/-! ## Proposer selection -/

/-- The loop of `proposerByVRF`: the first validator at which the running sum exceeds `n`. -/
def vrfLoop : List Validator → Int → Int → Int
  | [], _, _ => -1
  | v :: vs, n, i => if n - v.votingPower < 0 then i else vrfLoop vs (n - v.votingPower) (i + 1)

/-- `proposerByVRF`. -/
def proposerByVRF (env : Env) (headerHash : Bytes) (validators : List Validator) :
    Except Panic Int :=
  let n := (validators.map (·.votingPower)).sum
  if n = 0 then .error (.explicit "division by zero")
  else .ok (vrfLoop validators (env.sha256 (List.replicate 8 0 ++ headerHash) % n) 0)

/-- `proposersByVRF`: the proposers that the last two headers select. -/
def proposersByVRF (env : Env) (cs : ConsensusState) : Except Panic (Int × Int) := do
  let header := env.chain.currentBlock.header
  let curProposer ← proposerByVRF env (header.hash env.chain.keccak) cs.validators.validators
  let headerHeight := env.chain.currentBlock.numberU64
  if headerHeight = cs.epoch.startBlock then pure (-1, curProposer)
  else if headerHeight > 0 then
    match env.chain.getHeaderByNumber (headerHeight - 1) with
    | none => throw .nilDereference
    | some lastHeader =>
      let lastProposer ←
        proposerByVRF env (lastHeader.hash env.chain.keccak) cs.validators.validators
      pure (lastProposer, curProposer)
  else pure (-1, -1)

/-- The index of the proposer of round 0: the cached one, or the VRF's choice, with the validator
skipped that was chosen for the last height and did not sign there. -/
def vrfIndex (env : Env) (cs : ConsensusState) : Except Panic Int :=
  if cs.vrfValIndex ≥ 0 then .ok cs.vrfValIndex
  else do
    let (lastProposer, curProposer) ← proposersByVRF env cs
    let signed := (cs.ncExtra.seenCommit.bind (·.bitArray)).map fun bits =>
      bits.getD curProposer.toNat false
    if lastProposer ≥ 0 ∧ curProposer = lastProposer ∧ signed = some false then
      pure ((curProposer + 1).tmod cs.validators.size)
    else pure curProposer

/-- The validator at an index that must be in range. -/
def proposerAt (idx : Int) (cs : ConsensusState) : Except Panic Validator :=
  if idx ≥ cs.validators.size ∨ idx < 0 then
    .error (.panicConsensus "The index of proposer out of range")
  else match cs.validators.validators[idx.toNat]? with
    | none => .error .indexOutOfRange
    | some v => .ok v

/-- `proposerByRound`: by VRF in round 0, round robin from there. -/
def proposerByRound (env : Env) (round : Int) : Node Validator := do
  let cs ← get
  if round = 0 then
    let idx ← fromExcept (vrfIndex env cs)
    modify fun cs => { cs with vrfValIndex := idx }
    fromExcept (proposerAt idx cs)
  else if cs.vrfValIndex < 0 then
    throw (.panicConsensus "cs.vrfValIndex should not be -1")
  else if cs.validators.size = 0 then
    throw (.explicit "integer divide by zero")
  else
    fromExcept (proposerAt ((int64 (cs.vrfValIndex + round)).tmod cs.validators.size) cs)

/-- `IsProposer`. -/
def isProposer (env : Env) : Node Bool := do
  let cs ← get
  let proposer ← proposerByRound env cs.round
  pure (proposer.address == cs.privAddress)

/-! ## Voting -/

/-- `updateRoundStep`. -/
def updateRoundStep (round : Int) (step : RoundStep) : Node Unit :=
  modify fun cs => { cs with round := round, step := step }

/-- `scheduleTimeout`. -/
def scheduleTimeout (height : Nat) (round : Int) (step : RoundStep) : Node Unit :=
  emit (.tick ⟨height, round, step⟩)

/-- `signVote`: the vote is for the node's current round, whatever round the caller is about. -/
def signVote (env : Env) (cs : ConsensusState) (type : VoteType) (blockID : BlockID) : Vote :=
  let vote : Vote :=
    { validatorAddress := cs.privAddress
      validatorIndex := (cs.validators.getByAddress cs.privAddress).1
      height := cs.height, round := cs.round, type, blockID, signature := [] }
  { vote with
    signature := env.lib.sign cs.privAddress (vote.signBytes env.lib cs.ncExtra.chainID) }

/-- `signAddVote`. -/
def signAddVote (env : Env) (type : VoteType) (blockID : BlockID) : Node Unit := do
  let cs ← get
  if !cs.validators.hasAddress cs.privAddress then pure ()
  else
    let vote := signVote env cs type blockID
    emit (.signed cs.toRoundState vote)
    let proposer ← isProposer env
    if !proposer then
      if cs.proposerPeerKey ≠ "" then emit (.vote2Proposer vote cs.proposerPeerKey)
      else pure ()
    else emit (.internal (.vote (some vote)))

/-- `isProposalComplete`. -/
def isProposalComplete (cs : ConsensusState) : Bool :=
  cs.proposal.isSome && cs.proposalBlock.isSome

/-! ## Calls of the internal contract in a block -/

/-- The function of the internal contract that a transaction calls, if it does and the function is
known. -/
def contractFunction (env : Env) (tx : Transaction) : Except Panic (Option FunctionType) :=
  if !isNeatChainContractAddr tx.recipient then .ok none
  else do
    let id ← selector tx.payload
    pure (env.functionTypeFromId id)

/-- The loop of `createProposalBlock` that collects the proofs for withdrawals. -/
def collectTX3ProofData (env : Env) : List Transaction → Except Panic (List TX3ProofData)
  | [] => .ok []
  | tx :: txs => do
    let f ← contractFunction env tx
    let rest ← collectTX3ProofData env txs
    if f = some .withdrawFromMainChain then pure ((env.getTX3ProofData tx).toList ++ rest)
    else pure rest

/-- `ValidateTX4`: withdrawals and proofs must match one by one.  The result says whether the
block is accepted. -/
def validateTX4 (env : Env) : List Transaction → List TX3ProofData → Except Panic Bool
  | [], _ => .ok true
  | tx :: txs, proofs => do
    let f ← contractFunction env tx
    if f = some .withdrawFromMainChain then
      match proofs with
      | [] => pure false
      | proof :: proofs =>
        if env.validateTX3ProofData tx proof then validateTX4 env txs proofs else pure false
    else validateTX4 env txs proofs

/-- The loop of `finalizeCommit` that looks for a withdrawal from the side chain. -/
def hasWithdrawFromSideChain (env : Env) : List Transaction → Except Panic Bool
  | [] => .ok false
  | tx :: txs => do
    let f ← contractFunction env tx
    if f = some .withdrawFromSideChain then pure true else hasWithdrawFromSideChain env txs

/-! ## Committing -/

/-- The block that `finalizeCommit` hands to the backend: the commit is filled in, and on a side
chain the two flags are raised. -/
def sealBlock (env : Env) (block : TdmBlock) (te : NeatconExtra) (seenCommit : Commit) :
    Except Panic TdmBlock := do
  let te : NeatconExtra :=
    { te with
      seenCommit := some seenCommit
      seenCommitHash := env.lib.commitHash seenCommit }
  if isMainChain te.chainID then pure { block with ncExtra := some te }
  else
    let withdraws ← hasWithdrawFromSideChain env block.block.transactions
    pure { block with
      ncExtra := some { te with
        needToSave := te.needToSave || !te.epochBytes.isEmpty
        needToBroadcast := te.needToBroadcast || withdraws } }

/-- `finalizeCommit`. -/
def finalizeCommit (env : Env) (height : Nat) : Node Unit := do
  let cs ← get
  if cs.height ≠ height ∨ cs.step ≠ .commit then pure ()
  else
    match cs.voteSignAggr.precommits cs.commitRound with
    | none =>
      throw (.panicSanity "Cannot finalizeCommit, commit does not have two thirds majority")
    | some precommits =>
      match SignAggr.twoThirdsMajority (some precommits) with
      | none =>
        throw (.panicSanity "Cannot finalizeCommit, commit does not have two thirds majority")
      | some blockID =>
        if !PartSet.hasHeader cs.proposalBlockParts blockID.partsHeader then
          throw (.panicSanity "Expected ProposalBlockParts header to be commit header")
        else
          let hashes ← fromExcept (TdmBlock.hashesTo env.lib cs.proposalBlock blockID.hash)
          match hashes, cs.proposalBlock, cs.proposalBlock.bind (·.ncExtra) with
          | true, some block, some te =>
            let err ← fromExcept (block.validateBasic cs.ncExtra)
            if err.isSome then throw (.panicConsensus "+2/3 committed an invalid block")
            else if cs.ncExtra.height < te.height then
              let sealed ← fromExcept (sealBlock env block te precommits.makeCommit)
              modify fun cs =>
                { cs with
                  proposalBlock := some sealed
                  lockedBlock := if cs.lockedBlockShared then some sealed else cs.lockedBlock }
              emit (.committed sealed)
            else pure ()
          | _, _, _ =>
            throw (.panicSanity "Cannot finalizeCommit, ProposalBlock does not hash to commit hash")

/-- `tryFinalizeCommit`. -/
def tryFinalizeCommit (env : Env) (height : Nat) : Node Unit := do
  let cs ← get
  if cs.height ≠ height then throw (.panicSanity "tryFinalizeCommit() cs.Height vs height")
  else
    match SignAggr.twoThirdsMajority (cs.voteSignAggr.precommits cs.commitRound) with
    | none => pure ()
    | some blockID =>
      if blockID.hash.isEmpty then pure ()
      else
        let hashes ← fromExcept (TdmBlock.hashesTo env.lib cs.proposalBlock blockID.hash)
        if !hashes then pure ()
        else
          emit (.finalizeCommit cs.toRoundState blockID)
          finalizeCommit env height

/-- Dropping the proposal block and waiting for the parts of another one. -/
def fetchBlock (header : PartSetHeader) : Node Unit := do
  modify fun cs => { cs with proposalBlock := none, lockedBlockShared := false }
  let parts ← fromExcept (PartSet.newPartSetFromHeader header)
  modify fun cs => { cs with proposalBlockParts := some parts, lockedPartsShared := false }

/-- The body of `enterCommit`: get hold of the block that is being committed. -/
def enterCommitBody (env : Env) (commitRound : Int) : Node Unit := do
  let cs ← get
  match SignAggr.twoThirdsMajority (cs.voteSignAggr.precommits commitRound) with
  | none => throw (.panicSanity "RunActionCommit() expects +2/3 precommits")
  | some blockID =>
    let locked ← fromExcept (TdmBlock.hashesTo env.lib cs.lockedBlock blockID.hash)
    if locked then
      modify fun cs =>
        { cs with
          proposalBlock := cs.lockedBlock
          proposalBlockParts := cs.lockedBlockParts
          lockedBlockShared := true
          lockedPartsShared := true }
    else
      let proposed ← fromExcept (TdmBlock.hashesTo env.lib cs.proposalBlock blockID.hash)
      guarded (!proposed && !PartSet.hasHeader cs.proposalBlockParts blockID.partsHeader)
        (fetchBlock blockID.partsHeader)

/-- `enterCommit`. -/
def enterCommit (env : Env) (height : Nat) (commitRound : Int) : Node Unit := do
  let cs ← get
  if cs.height ≠ height ∨ RoundStep.commit.num ≤ cs.step.num then pure ()
  else
    deferred (enterCommitBody env commitRound) do
      modify fun cs => { cs with step := .commit, commitRound := commitRound }
      tryFinalizeCommit env height

/-! ## Precommit -/

/-- `enterPrecommitWait`. -/
def enterPrecommitWait (height : Nat) (round : Int) : Node Unit := do
  let cs ← get
  if cs.height ≠ height ∨ round < cs.round ∨
      (cs.round = round ∧ RoundStep.precommitWait.num ≤ cs.step.num) then pure ()
  else
    scheduleTimeout height round .precommitWait
    updateRoundStep round .precommitWait

/-- Giving up the lock because of a majority for `b` in `round`. -/
def unlock (round : Int) (b : BlockID) : Node Unit :=
  modify fun cs =>
    { cs with
      lockedRound := -1, lockedBlock := none, lockedBlockParts := none
      lockedBlockShared := false, lockedPartsShared := false
      trace := .polka cs.toRoundState round b .unlock :: cs.trace }

/-- The body of `enterPrecommit`. -/
def enterPrecommitBody (env : Env) (round : Int) : Node Unit := do
  let cs ← get
  match SignAggr.twoThirdsMajority (cs.voteSignAggr.prevotes round) with
  | none => signAddVote env .precommit .zero
  | some blockID =>
    if cs.voteSignAggr.polInfo.1 < round then throw (.panicSanity "This POLRound should be round")
    else if blockID.hash.isEmpty then
      guarded cs.lockedBlock.isSome (unlock round blockID)
      signAddVote env .precommit .zero
    else
      let locked ← fromExcept (TdmBlock.hashesTo env.lib cs.lockedBlock blockID.hash)
      if locked then
        modify fun cs =>
          { cs with
            lockedRound := round
            trace := .polka cs.toRoundState round blockID .relock :: cs.trace }
        signAddVote env .precommit blockID
      else
        let proposed ← fromExcept (TdmBlock.hashesTo env.lib cs.proposalBlock blockID.hash)
        match proposed, cs.proposalBlock with
        | true, some block =>
          let err ← fromExcept (block.validateBasic cs.ncExtra)
          if err.isSome then
            throw (.panicConsensus "enterPrecommit: +2/3 prevoted for an invalid block")
          else
            modify fun cs =>
              { cs with
                lockedRound := round
                lockedBlock := cs.proposalBlock
                lockedBlockParts := cs.proposalBlockParts
                lockedBlockShared := true, lockedPartsShared := true
                trace := .polka cs.toRoundState round blockID .lock :: cs.trace }
            signAddVote env .precommit blockID
        | _, _ =>
          unlock round blockID
          guarded (!PartSet.hasHeader cs.proposalBlockParts blockID.partsHeader)
            (fetchBlock blockID.partsHeader)
          signAddVote env .precommit .zero

/-- `enterPrecommit`. -/
def enterPrecommit (env : Env) (height : Nat) (round : Int) : Node Unit := do
  let cs ← get
  if cs.height ≠ height ∨ round < cs.round ∨
      (cs.round = round ∧ RoundStep.precommit.num ≤ cs.step.num) then pure ()
  else
    deferred (enterPrecommitBody env round) do
      updateRoundStep round .precommit
      enterPrecommitWait height round

/-! ## Prevote -/

/-- `enterPrevoteWait`. -/
def enterPrevoteWait (height : Nat) (round : Int) : Node Unit := do
  let cs ← get
  if cs.height ≠ height ∨ round < cs.round ∨
      (cs.round = round ∧ RoundStep.prevoteWait.num ≤ cs.step.num) then pure ()
  else
    scheduleTimeout height round .prevoteWait
    updateRoundStep round .prevoteWait

/-- `Epoch.ShouldProposeNextEpoch`. -/
def shouldProposeNextEpoch (cs : ConsensusState) (height : Nat) : Bool :=
  cs.nextEpoch.isNone && cs.epoch.startBlock < height && height != 1 && height != cs.epoch.endBlock

/-- The checks of the proposal block in `defaultDoPrevote` that do not ask who proposed. -/
def proposalBasicsOk (env : Env) (cs : ConsensusState) (block : TdmBlock) : Except Panic Bool := do
  let err ← block.validateBasic cs.ncExtra
  if err.isSome then pure false
  else validateTX4 env block.block.transactions block.tx3ProofData

/-- The check of a proposed next epoch in `defaultDoPrevote`. -/
def nextEpochOk (env : Env) (cs : ConsensusState) (block : TdmBlock) : Except Panic Bool :=
  match block.ncExtra with
  | none => .error .nilDereference
  | some te =>
    match env.epochFromBytes te.epochBytes with
    | none => .ok true
    | some next =>
      if next.number = cs.epoch.number + 1 ∧ shouldProposeNextEpoch cs cs.height then
        .ok (env.validateNextEpoch cs.epoch next)
      else .ok true

/-- `defaultDoPrevote`. -/
def defaultDoPrevote (env : Env) : Node Unit := do
  let cs ← get
  if cs.lockedBlock.isSome then
    let hash ← fromExcept (TdmBlock.hash env.lib cs.lockedBlock)
    signAddVote env .prevote ⟨hash, PartSet.header cs.lockedBlockParts⟩
  else
    match cs.proposalBlock with
    | none => signAddVote env .prevote .zero
    | some block =>
      let basics ← fromExcept (proposalBasicsOk env cs block)
      if !basics then signAddVote env .prevote .zero
      else
        -- the proposer has executed its own block already
        let proposer ← isProposer env
        if !proposer && (env.chain.validateBlock block.block).isSome then
          signAddVote env .prevote .zero
        else
          let epochOk ← fromExcept (nextEpochOk env cs block)
          if !epochOk then signAddVote env .prevote .zero
          else
            let hash ← fromExcept (TdmBlock.hash env.lib cs.proposalBlock)
            signAddVote env .prevote ⟨hash, PartSet.header cs.proposalBlockParts⟩

/-- `enterPrevote`. -/
def enterPrevote (env : Env) (height : Nat) (round : Int) : Node Unit := do
  let cs ← get
  if cs.height ≠ height ∨ round < cs.round ∨
      (cs.round = round ∧ RoundStep.prevoteWait.num < cs.step.num) then pure ()
  else
    deferred (if isProposalComplete cs then defaultDoPrevote env else pure ()) do
      let cs ← get
      guarded (cs.step == .propose) (updateRoundStep round .prevote)
      enterPrevoteWait height round

/-! ## Propose -/

/-- `State.GetValidators`: the validators of the current epoch, if the last block was made in it or
in the epoch before. -/
def getValidators (epoch : Epoch) (te : NeatconExtra) : Option ValidatorSet :=
  if te.epochNumber = epoch.number ∨ te.epochNumber = prevU64 epoch.number then
    some epoch.validators
  else none

/-- The epoch data that `createProposalBlock` puts into the block. -/
def proposalEpochBytes (env : Env) (cs : ConsensusState) : Except Panic Bytes :=
  if cs.height = cs.epoch.endBlock then
    match cs.nextEpoch.orElse fun _ => env.loadNextEpoch with
    | none => .error (.explicit "missing next epoch at epoch end block")
    | some next => .ok (env.epochBytes next)
  else if cs.height = cs.epoch.startBlock ∨ cs.height = 1 then .ok (env.epochBytes cs.epoch)
  else if shouldProposeNextEpoch cs cs.height then
    .ok (env.epochBytes (env.proposeNextEpoch cs.epoch))
  else .ok []

/-- `createProposalBlock`; nil if there is no block from the miner for this height. -/
def createProposalBlock (env : Env) (cs : ConsensusState) :
    Except Panic (Option (TdmBlock × PartSet)) :=
  match cs.blockFromMiner with
  | none => .ok none
  | some neatBlock =>
    if cs.height ≠ neatBlock.numberU64 then .ok none
    else do
      let epochBytes ← proposalEpochBytes env cs
      match getValidators cs.epoch cs.ncExtra with
      | none => throw .nilDereference
      | some val =>
        let proofs ← collectTX3ProofData env neatBlock.transactions
        let block := TdmBlock.makeBlock cs.height cs.ncExtra.chainID .empty neatBlock
          (val.hash env.lib) cs.epoch.number epochBytes proofs env.now
        pure (some (block, block.makePartSet env.lib 65536))

/-- Sending the parts of the proposal, from the first to the last. -/
def sendParts (height : Nat) (round : Int) : List (Option Part) → Node Unit
  | [] => pure ()
  | part :: parts => do
    emit (.internal (.blockPart height round part))
    sendParts height round parts

/-- The end of `defaultDecideProposal`: make, sign and send the proposal. -/
def sendProposal (env : Env) (height : Nat) (round : Int) (block : Option TdmBlock)
    (parts : Option PartSet) : Node Unit := do
  let cs ← get
  let hash ← fromExcept (TdmBlock.hash env.lib block)
  if env.nodeID = "" then throw (.explicit "Node id is nil")
  else
    let proposal : Proposal :=
      { height, round, hash, blockPartsHeader := PartSet.header parts
        polRound := cs.voteSignAggr.polInfo.1, polBlockID := cs.voteSignAggr.polInfo.2
        proposerPeerKey := env.nodeID, signature := [] }
    let signature :=
      env.lib.sign cs.privAddress (proposal.signBytes env.lib cs.ncExtra.chainID)
    emit (.internal (.proposal (some { proposal with signature })))
    sendParts cs.height cs.round ((parts.map (·.parts)).getD [])

/-- `defaultDecideProposal`. -/
def defaultDecideProposal (env : Env) (height : Nat) (round : Int) : Node Unit := do
  let cs ← get
  if cs.lockedBlock.isSome then
    sendProposal env height round cs.lockedBlock cs.lockedBlockParts
  else
    let created ← fromExcept (createProposalBlock env cs)
    match created with
    | none => pure ()
    | some (block, parts) => sendProposal env height round (some block) (some parts)

/-- Saving the last block to the main chain, or broadcasting its proofs there, if we propose on a
side chain and the block asks for it; the request is then cleared. -/
def reportToMainChain (env : Env) (needed : Bool) (clear : NeatconExtra → NeatconExtra) :
    Node Unit := do
  let cs ← get
  if needed && !isMainChain cs.ncExtra.chainID then
    let proposer ← isProposer env
    guarded proposer (modify fun cs => { cs with ncExtra := clear cs.ncExtra })
  else pure ()

/-- The body of `enterPropose`. -/
def enterProposeBody (env : Env) (height : Nat) (round : Int) : Node Unit := do
  let cs ← get
  reportToMainChain env cs.ncExtra.needToSave fun te => { te with needToSave := false }
  reportToMainChain env cs.ncExtra.needToBroadcast fun te => { te with needToBroadcast := false }
  scheduleTimeout height round .propose
  let proposer ← isProposer env
  if !proposer then pure () else defaultDecideProposal env height round

/-- `enterPropose`. -/
def enterPropose (env : Env) (height : Nat) (round : Int) : Node Unit := do
  let cs ← get
  if cs.height ≠ height ∨ round < cs.round ∨
      (cs.round = round ∧ RoundStep.propose.num ≤ cs.step.num) then pure ()
  else
    deferred (enterProposeBody env height round) do
      updateRoundStep round .propose
      let cs ← get
      if isProposalComplete cs then enterPrevote env height cs.round else pure ()

/-! ## New rounds and lower rounds -/

/-- `ROUND_NOT_PROPOSED`. -/
def roundNotProposed : Nat := 0

/-- `ROUND_PROPOSED`. -/
def roundProposed : Nat := 1

/-- Setting a key of `pastRoundStates`. -/
def setPastRound (m : List (Int × Nat)) (r : Int) (v : Nat) : List (Int × Nat) :=
  (r, v) :: m.filter fun p => p.1 != r

/-- Reading a key of `pastRoundStates`; a missing key reads as zero. -/
def getPastRound (m : List (Int × Nat)) (r : Int) : Nat :=
  ((m.find? fun p => p.1 == r).map (·.2)).getD 0

/-- Forgetting the proposal and the majorities of a round. -/
def clearRound (cs : ConsensusState) : ConsensusState :=
  { cs with
    proposal := none, proposalBlock := none, proposalBlockParts := none, proposerPeerKey := ""
    prevoteMaj23SignAggr := none, precommitMaj23SignAggr := none
    lockedBlockShared := false, lockedPartsShared := false }

/-- The common end of `enterNewRound` and `enterLowerRound`: propose, or wait for the miner. -/
def proposeOrWait (env : Env) (height : Nat) (round : Int) : Node Unit := do
  let proposer ← isProposer env
  let cs ← get
  if proposer && cs.blockFromMiner.all (fun b => cs.height != b.numberU64) then
    scheduleTimeout height round .waitForMinerBlock
  else enterPropose env height round

/-- `enterNewRound`. -/
def enterNewRound (env : Env) (height : Nat) (round : Int) : Node Unit := do
  let cs ← get
  if cs.height ≠ height ∨ round < cs.round ∨ (cs.round = round ∧ cs.step ≠ .newHeight) then
    pure ()
  else
    updateRoundStep round .newRound
    guarded (round != 0) (modify clearRound)
    let voteSignAggr ← fromExcept (cs.voteSignAggr.setRound (round + 1))
    modify fun cs => { cs with voteSignAggr }
    let votes ← fromExcept (cs.votes.setRound (round + 1))
    modify fun cs =>
      { cs with
        votes
        pastRoundStates := setPastRound cs.pastRoundStates round roundNotProposed }
    proposeOrWait env height round

/-- `enterLowerRound`. -/
def enterLowerRound (env : Env) (height : Nat) (round : Int) : Node Unit := do
  let cs ← get
  modify fun cs =>
    { cs with
      pastRoundStates := cs.pastRoundStates.filter fun p => !(round < p.1 && p.1 ≤ cs.round) }
  updateRoundStep round .newRound
  modify clearRound
  let voteSignAggr ← fromExcept (cs.voteSignAggr.resetTop2Round (round + 1))
  modify fun cs => { cs with voteSignAggr }
  let votes ← fromExcept (cs.votes.resetTop2Round (round + 1))
  modify fun cs => { cs with votes }
  proposeOrWait env height round

/-! ## Messages -/

/-- The checks of `defaultSetProposal` that come before the signature. -/
def proposalApplies (cs : ConsensusState) (p : Proposal) : Bool :=
  cs.proposal.isNone && p.height == cs.height && p.round ≤ cs.round &&
    cs.step.num < RoundStep.commit.num &&
    (p.polRound == -1 || (0 ≤ p.polRound && p.polRound < p.round))

/-- The signature check of `defaultSetProposal`. -/
def proposalSigned (env : Env) (cs : ConsensusState) (proposer : Validator) (p : Proposal) : Bool :=
  env.lib.verifyBytes proposer.pubKey (p.signBytes env.lib cs.chainID) p.signature

/-- The round of the proposal has passed without one, as far as the node remembers. -/
def pastRoundOpen (cs : ConsensusState) (p : Proposal) : Bool :=
  p.round ≤ cs.pastRoundStates.length - 1 &&
    getPastRound cs.pastRoundStates p.round == roundNotProposed

/-- The end of `defaultSetProposal`. -/
def storeProposal (p : Proposal) : Node Unit := do
  modify fun cs => { cs with proposal := some p }
  let parts ← fromExcept (PartSet.newPartSetFromHeader p.blockPartsHeader)
  modify fun cs =>
    { cs with
      proposalBlockParts := some parts, lockedPartsShared := false
      proposerPeerKey := p.proposerPeerKey
      pastRoundStates := setPastRound cs.pastRoundStates cs.round roundProposed }

/-- `defaultSetProposal`. -/
def defaultSetProposal (env : Env) (proposal : Option Proposal) : Node Unit := do
  let cs ← get
  match proposal with
  | none => if cs.proposal.isSome then pure () else throw .nilDereference
  | some p =>
    if !proposalApplies cs p then pure ()
    else
      let proposer ← proposerByRound env p.round
      if !proposalSigned env cs proposer p then pure ()
      else if p.round = cs.round then storeProposal p
      else if !pastRoundOpen cs p then pure ()
      else
        enterLowerRound env cs.height p.round
        storeProposal p

/-- The end of `addProposalBlockPart`, once all parts are there. -/
def proposalBlockReceived (env : Env) (height : Nat) (parts : PartSet) : Node Unit := do
  modify fun cs =>
    { cs with
      proposalBlock := env.lib.blockFromBytes parts.getReader, lockedBlockShared := false }
  let cs ← get
  if RoundStep.propose.num ≤ cs.step.num ∧ cs.step.num ≤ RoundStep.prevoteWait.num ∧
      isProposalComplete cs then enterPrevote env height cs.round
  else if cs.step = .commit then tryFinalizeCommit env height
  else pure ()

/-- `addProposalBlockPart`. -/
def addProposalBlockPart (env : Env) (height : Nat) (round : Int) (part : Option Part)
    (verify : Bool) : Node Unit := do
  let cs ← get
  if cs.height ≠ height ∨ cs.round ≠ round then pure ()
  else
    match cs.proposalBlockParts, part with
    | none, _ => pure ()
    | some _, none => throw .nilDereference
    | some ps, some part =>
      let (ps', added, _) ← fromExcept (ps.addPart env.lib part verify)
      if !added then pure ()
      else
        modify fun cs =>
          { cs with
            proposalBlockParts := some ps'
            lockedBlockParts := if cs.lockedPartsShared then some ps' else cs.lockedBlockParts }
        if ps'.isComplete then proposalBlockReceived env height ps' else pure ()

/-- Why `blsVerifySignAggr` fails. -/
inductive BlsError where
  /-- `Invalid BLSSignature(nil)` -/
  | nilSignature
  | tally (e : TallyError)
  /-- `can not aggregate pubkeys` -/
  | noAggregateKey
  /-- `Invalid aggregate signature` -/
  | invalidSignature
deriving DecidableEq, Repr

/-- `blsVerifySignAggr`: the result says whether the signers reach the threshold. -/
def blsVerifySignAggr (lib : Neatlib) (validators : ValidatorSet) (sa : SignAggr) :
    Except BlsError Bool :=
  if sa.signatureAggr.isEmpty then .error .nilSignature
  else
    match validators.talliedVotingPower sa.bitArray with
    | .error e => .error (.tally e)
    | .ok (_, votesSum, totalVotes) =>
      let maj23 : Bool := loose23MajorThreshold totalVotes sa.round ≤ votesSum
      match validators.aggrPubKey lib sa.bitArray with
      | none => .error .noAggregateKey
      | some aggrPubKey =>
        -- the bytes are those of a vote for `BlockID` on the chain that the message names
        let msg := lib.voteSignBytes ⟨sa.chainID, sa.blockID, sa.height, sa.round, sa.type⟩
        if !lib.verifyBytes aggrPubKey msg sa.signatureAggr then .error .invalidSignature
        else .ok maj23

/-- The aggregate passes the check of `setMaj23SignAggr`. -/
def signAggrAccepted (lib : Neatlib) (validators : ValidatorSet) (sa : SignAggr) : Bool :=
  match blsVerifySignAggr lib validators sa with
  | .ok maj23 => maj23
  | .error _ => false

/-- The part of `setMaj23SignAggr` for a majority of prevotes of the current round. -/
def setPrevoteMaj23 (env : Env) (sa : SignAggr) : Node Unit := do
  let cs ← get
  if cs.prevoteMaj23SignAggr.isSome then pure ()
  else
    modify fun cs => { cs with prevoteMaj23SignAggr := some sa }
    if cs.lockedBlock.isSome ∧ cs.lockedRound < sa.round then
      let hashes ← fromExcept (TdmBlock.hashesTo env.lib cs.lockedBlock sa.maj23.hash)
      guarded (!hashes) (unlock sa.round sa.maj23)
      if isProposalComplete cs then enterPrecommit env cs.height cs.round else pure ()
    else if isProposalComplete cs then enterPrecommit env cs.height cs.round
    else pure ()

/-- The part of `setMaj23SignAggr` for a majority of precommits of the current round. -/
def setPrecommitMaj23 (env : Env) (sa : SignAggr) : Node Unit := do
  let cs ← get
  if cs.precommitMaj23SignAggr.isSome then pure ()
  else
    modify fun cs => { cs with precommitMaj23SignAggr := some sa }
    if isProposalComplete cs then enterCommit env cs.height cs.round else pure ()

/-- `setMaj23SignAggr`, with `handleSignAggr`. -/
def setMaj23SignAggr (env : Env) (signAggr : Option SignAggr) : Node Unit := do
  let cs ← get
  match signAggr with
  | none => pure ()
  | some sa =>
    if sa.height ≠ cs.height then pure ()
    else if !signAggrAccepted env.lib cs.validators sa then pure ()
    else if !sa.type.isVoteTypeValid then pure ()
    else
      modify fun cs => { cs with voteSignAggr := cs.voteSignAggr.addSignAggr sa }
      if sa.round ≠ cs.round then pure ()
      else if sa.type = .prevote then setPrevoteMaj23 env sa
      else setPrecommitMaj23 env sa

/-- The votes of a set that make up its majority. -/
def majorityVotes (vs : VoteSet) (maj23 : BlockID) : List Vote :=
  vs.votes.filterMap fun v => v.filter (·.blockID == maj23)

/-- The bit array with the bits of the given validators set. -/
def signBitArray (numValidators : Nat) (votes : List Vote) : BitArray :=
  votes.foldl (fun bits v => bits.set v.validatorIndex true) (List.replicate numValidators false)

/-- `sendMaj23SignAggr`. -/
def sendMaj23SignAggr (env : Env) (voteType : VoteType) : Node Unit := do
  let cs ← get
  match cs.votes.getVoteSet cs.round voteType with
  | none => pure ()
  | some vs =>
    match vs.maj23 with
    | none => pure ()
    | some maj23 =>
      let votes := majorityVotes vs maj23
      match env.lib.blsSignatureAggregate (votes.map (·.signature)) with
      | none => pure ()
      | some signature =>
        if maj23.isZero then pure ()
        else
          let sa := SignAggr.makeSignAggr cs.height cs.round voteType maj23 cs.votes.chainID
            (signBitArray cs.validators.size votes) signature
          emit (.signAggr sa)
          emit (.internal (.maj23SignAggr (some sa)))

/-- `addVote`: only the proposer collects votes, and only those of its round. -/
def addVote (env : Env) (vote : Option Vote) (peerKey : String) : Node Unit := do
  match vote with
  | none => throw .nilDereference
  | some vote =>
    let proposer ← isProposer env
    let cs ← get
    if !proposer then pure ()
    else if vote.height ≠ cs.height ∨ vote.round ≠ cs.round then pure ()
    else
      let type : VoteType := if vote.type = .prevote then .prevote else .precommit
      if VoteSet.hasTwoThirdsMajority (cs.votes.getVoteSet cs.round type) then pure ()
      else
        let (votes, added, _) ← fromExcept (cs.votes.addVote env.lib vote peerKey)
        modify fun cs => { cs with votes }
        if added && VoteSet.hasTwoThirdsMajority (votes.getVoteSet cs.round vote.type) then
          sendMaj23SignAggr env vote.type
        else pure ()

/-! ## Inputs -/

/-- `handleTimeout`. -/
def handleTimeout (env : Env) (ti : TimeoutInfo) : Node Unit := do
  let cs ← get
  if ti.height ≠ cs.height ∨ ti.round < cs.round ∨
      (ti.round = cs.round ∧ ti.step.num < cs.step.num) then pure ()
  else
    match ti.step with
    | .newHeight => enterNewRound env ti.height 0
    | .waitForMinerBlock => enterPropose env ti.height ti.round
    | .propose => enterPrevote env ti.height ti.round
    | .prevoteWait => enterPrecommit env ti.height ti.round
    | .precommitWait => enterNewRound env ti.height (ti.round + 1)
    | _ => throw (.explicit "Invalid timeout step")

/-- The extra data of the last block; before the first block, those of `MakeGenesisState`. -/
def lastExtra (env : Env) (cs : ConsensusState) : NeatconExtra :=
  env.loadLastNeatconExtra.getD { NeatconExtra.zero with chainID := cs.chainID, time := env.now }

/-- `StartNewHeight`, with `InitState`, `Initialize` and `UpdateToState`. -/
def startNewHeight (env : Env) : Node Unit := do
  let cs ← get
  let te := lastExtra env cs
  let (epoch, nextEpoch) := env.currentEpoch
  let height := te.height + 1
  match getValidators epoch te with
  | none => throw .nilDereference
  | some validators =>
    let votes ← fromExcept (HeightVoteSet.newHeightVoteSet cs.chainID height validators)
    modify fun cs =>
      { cs with
        height, round := 0, step := .newHeight, validators
        proposal := none, proposalBlock := none, proposalBlockParts := none, proposerPeerKey := ""
        lockedRound := -1, lockedBlock := none, lockedBlockParts := none
        votes, voteSignAggr := .newHeightVoteSignAggr, commitRound := -1
        prevoteMaj23SignAggr := none, precommitMaj23SignAggr := none
        epoch, nextEpoch, ncExtra := te, vrfValIndex := -1, pastRoundStates := []
        blockFromMiner := cs.blockFromMiner.filter fun b => height ≤ b.numberU64
        lockedBlockShared := false, lockedPartsShared := false }
    scheduleTimeout height 0 .newHeight

/-- What can happen to a node. -/
inductive Input where
  /-- A message from a peer, or from the node itself (`peerKey = ""`). -/
  | msg (m : Msg) (peerKey : String)
  /-- A timeout fires. -/
  | timeout (ti : TimeoutInfo)
  /-- The miner hands over a block. -/
  | request (b : Block)
  /-- A block has been written to the chain. -/
  | finalCommitted (blockNumber : Nat)

/-- The input makes the node start a new height. -/
def Input.startsHeight (cs : ConsensusState) : Input → Bool
  | .request b => cs.height + 1 ≤ b.numberU64
  | .finalCommitted n => n == cs.height
  | _ => false

/-- The callback for a block from the miner. -/
def handleRequest (env : Env) (b : Block) : Node Unit := do
  let cs ← get
  if cs.height ≤ b.numberU64 then
    guarded (cs.height + 1 ≤ b.numberU64) (startNewHeight env)
    modify fun cs => { cs with blockFromMiner := some b }
  else pure ()

/-- The callback for a block that has been written. -/
def handleFinalCommitted (env : Env) (blockNumber : Nat) : Node Unit := do
  let cs ← get
  if blockNumber = cs.height then startNewHeight env else pure ()

/-- One round of `receiveRoutine`, or one of the callbacks that the reactor registers. -/
def handle (env : Env) : Input → Node Unit
  | .msg (.proposal p) _ => defaultSetProposal env p
  | .msg (.blockPart height round part) peerKey =>
    addProposalBlockPart env height round part (peerKey != "")
  | .msg (.maj23SignAggr sa) _ => setMaj23SignAggr env sa
  | .msg (.vote v) peerKey => addVote env v peerKey
  | .timeout ti => handleTimeout env ti
  | .request b => handleRequest env b
  | .finalCommitted n => handleFinalCommitted env n

/-- One step of a node.  A node that has panicked does nothing any more. -/
def step (env : Env) (input : Input) (cs : ConsensusState) : ConsensusState :=
  if cs.crashed.isSome then cs
  else { endState (handle env input) cs with crashed := endError (handle env input) cs }

end NeatPoS
