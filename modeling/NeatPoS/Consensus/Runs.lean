import NeatPoS.Consensus.Moves

/-!
# Runs of a node

A run starts with `StartNewHeight` on a fresh node and handles inputs one after the other.  Any
message may arrive at any time, from any peer, any number of times.  Two inputs are the node's own:
a timeout fires only if it was scheduled (when it fires, and whether it does, is left open), and a
height starts only once the chain has the block before it (`Input.admissible`).

`Reachable lib P` collects the states of all runs whose steps satisfy `P`; with `P` always true,
those of all runs.  `Inductive.reachable` is the rule by which every invariant is proved: it has to
hold at the start, and each move has to keep it.

The last section is a network of three validators, small enough to be run.
-/

set_option autoImplicit false

namespace NeatPoS

open Stateful Relation

/-- The vote that an event shows. -/
def Event.vote : Event → Option Vote
  | .signed _ v => some v
  | _ => none

/-- The votes that a trace shows. -/
def votesOf (trace : List Event) : List Vote := trace.filterMap Event.vote

theorem mem_votesOf {trace : List Event} {v : Vote} :
    v ∈ votesOf trace ↔ ∃ rs, .signed rs v ∈ trace := by
  rw [votesOf, List.mem_filterMap]
  constructor
  · rintro ⟨e, he, hv⟩
    cases e with
    | signed rs => exact ⟨rs, by rw [← Option.some.inj hv]; exact he⟩
    | _ => exact absurd hv (by simp [Event.vote])
  · rintro ⟨rs, h⟩
    exact ⟨_, h, rfl⟩

/-- The event schedules the timeout. -/
def Event.isTick (ti : TimeoutInfo) : Event → Bool
  | .tick ti' => ti' == ti
  | _ => false

theorem tick_mem_of_any {trace : List Event} {ti : TimeoutInfo}
    (h : trace.any (Event.isTick ti) = true) : .tick ti ∈ trace := by
  rw [List.any_eq_true] at h
  obtain ⟨e, he, htick⟩ := h
  cases e with
  | tick =>
    rw [Event.isTick, beq_iff_eq] at htick
    rwa [← htick]
  | _ => exact absurd htick (by simp [Event.isTick])

/-- The input can occur: a timeout has been scheduled, and a height starts after the last one. -/
def Input.admissible (env : Env) (cs : ConsensusState) (input : Input) : Bool :=
  (match input with
    | .timeout ti => cs.trace.any (Event.isTick ti)
    | _ => true) &&
  (!input.startsHeight cs || cs.height ≤ (lastExtra env cs).height)

/-- The state of a node that has just been started. -/
def Started (lib : Neatlib) (cs : ConsensusState) : Prop :=
  ∃ env cs₀, env.lib = lib ∧ cs₀.trace = [] ∧ cs₀.crashed = none ∧
    startNewHeight env cs₀ = .ok () cs

/-- The states of the runs whose steps satisfy `P`. -/
inductive Reachable (lib : Neatlib) (P : Env → Input → ConsensusState → Prop) :
    ConsensusState → Prop
  | started {cs : ConsensusState} (h : Started lib cs) : Reachable lib P cs
  | step {cs : ConsensusState} {env : Env} {input : Input} (h : Reachable lib P cs)
      (hlib : env.lib = lib) (hadm : input.admissible env cs = true) (hP : P env input cs) :
      Reachable lib P (step env input cs)

variable {cs : ConsensusState}

theorem Input.admissible_timeout {env : Env} {ti : TimeoutInfo}
    (h : (Input.timeout ti).admissible env cs = true) : .tick ti ∈ cs.trace := by
  rw [Input.admissible, Bool.and_eq_true] at h
  exact tick_mem_of_any h.1

theorem Input.admissible_height {env : Env} {input : Input}
    (h : input.admissible env cs = true) (hs : input.startsHeight cs = true) :
    cs.height ≤ (lastExtra env cs).height := by
  simp only [Input.admissible, Bool.and_eq_true] at h
  simpa [hs] using h.2

/-- A timeout of a later round was scheduled. -/
theorem Ahead.tick_mem {env : Env} {start : ConsensusState} {input : Input} {st : RoundStep}
    {r : Int} (h : Ahead start input st r) (hadm : input.admissible env start = true) :
    .tick ⟨start.height, r, st⟩ ∈ start.trace := by
  rw [h.1] at hadm
  exact Input.admissible_timeout hadm

/-- What `StartNewHeight` leaves behind. -/
theorem Started.eq {lib : Neatlib} (h : Started lib cs) :
    ∃ env cs₀ validators votes, env.lib = lib ∧ cs₀.crashed = none ∧
      getValidators env.currentEpoch.1 (lastExtra env cs₀) = some validators ∧
      HeightVoteSet.newHeightVoteSet cs₀.chainID ((lastExtra env cs₀).height + 1) validators =
        .ok votes ∧
      cs = { cs₀.atNewHeight env validators votes with
        trace := [.tick ⟨(lastExtra env cs₀).height + 1, 0, .newHeight⟩] } := by
  obtain ⟨env, cs₀, hlib, htrace, hcrashed, hstart⟩ := h
  rw [startNewHeight, get_bind_apply] at hstart
  simp only at hstart
  cases hval : getValidators env.currentEpoch.1 (lastExtra env cs₀) with
  | none =>
    rw [hval] at hstart
    cases hstart
  | some validators =>
    rw [hval] at hstart
    obtain ⟨votes, hvotes, hstart⟩ := fromExcept_bind_eq_ok.1 hstart
    refine ⟨env, cs₀, validators, votes, hlib, hcrashed, hval, hvotes, ?_⟩
    rw [modify_bind_apply] at hstart
    cases hstart
    rw [htrace]
    rfl

/-- An invariant: it holds at the start, and every move keeps it. -/
structure Inductive (lib : Neatlib) (P : Env → Input → ConsensusState → Prop)
    (I : ConsensusState → Prop) : Prop where
  started : ∀ cs, Started lib cs → I cs
  crashed : ∀ cs c, I cs → I { cs with crashed := c }
  move : ∀ env start input s s', env.lib = lib → input.admissible env start = true →
    P env input start → I start → I s → Move env start input s s' → I s'

section Inductive

variable {lib : Neatlib} {P : Env → Input → ConsensusState → Prop} {I : ConsensusState → Prop}
  {env : Env} {cs : ConsensusState} {input : Input} (h : Inductive lib P I)
include h

theorem Inductive.path {start s : ConsensusState} (hlib : env.lib = lib)
    (hadm : input.admissible env start = true) (hP : P env input start) (hstart : I start) (hs : Path env start input start s) : I s := by
  induction hs with
  | refl => exact hstart
  | tail _ hmove ih => exact h.move env start input _ _ hlib hadm hP hstart ih hmove

/-- One step keeps an invariant. -/
theorem Inductive.step (hlib : env.lib = lib) (hadm : input.admissible env cs = true)
    (hP : P env input cs) (hcs : I cs) : I (step env input cs) := by
  rw [NeatPoS.step]
  split
  · exact hcs
  · exact h.crashed _ _ (h.path hlib hadm hP hcs (handle_path env cs input))

/-- **An invariant holds in every state of every run.** -/
theorem Inductive.reachable (hr : Reachable lib P cs) : I cs := by
  induction hr with
  | started hs => exact h.started _ hs
  | step _ hlib hadm hP ih => exact h.step hlib hadm hP ih

end Inductive

/-! ## A small network

Three validators with the powers 1, 1 and 10 at height 5.  In round 0 the first one proposes, and
so on in turn.  A block is determined by the time it was made, which is also the one byte it is
written as; the bytes 200 and 201 stand for two blocks that no honest proposer makes. -/

namespace SmallNet

/-- The validators `[1]`, `[2]` and `[3]`; an address is also the key. -/
def validators : ValidatorSet :=
  ⟨[⟨[1], [1], 1, 0⟩, ⟨[2], [2], 1, 0⟩, ⟨[3], [3], 10, 0⟩]⟩

/-- The header at a height. -/
def header (number : Nat) : Header :=
  { parentHash := [(number - 1).toUInt8, 0], uncleHash := [], coinbase := [], root := [], txHash := []
    receiptHash := [], bloom := [], difficulty := some 1, number := some number, gasLimit := 0
    gasUsed := 0, time := some 0, extra := [], mixDigest := neatconDigest
    nonce := neatconEmptyNonce, mainChainNumber := none }

/-- A block for height 3, with consensus data for height 5 that name another epoch and other
validators. -/
def stray : TdmBlock :=
  TdmBlock.makeBlock 5 "neatio" .empty ⟨{ header 3 with gasLimit := 1 }, [], []⟩ [9] 99 [] [] 200

/-- The consensus data of the block 7 around another block. -/
def twin : TdmBlock :=
  TdmBlock.makeBlock 5 "neatio" .empty ⟨{ header 5 with gasLimit := 2 }, [], []⟩ [1, 2, 3] 1 [] [] 7

/-- The block that is written as the byte `k`. -/
def block (k : Int) : TdmBlock :=
  if k = 200 then stray
  else if k = 201 then twin
  else TdmBlock.makeBlock 5 "neatio" .empty ⟨header 5, [], []⟩ [1, 2, 3] 1 [] [] k

/-- The libraries. -/
def lib : Neatlib :=
  Neatlib.toy
    (fun b : TdmBlock =>
      [if b.block.header.gasLimit = 2 then 201
        else ((b.ncExtra.map fun te : NeatconExtra => te.time).getD 0).toNat.toUInt8])
    fun bytes =>
      match bytes with
      | [k] => some (block k.toNat)
      | _ => none

/-- The chain, up to height 4. -/
def chain : BlockChain where
  keccak := ⟨fun h => [(h.number.getD 0).toUInt8, h.gasLimit.toUInt8], fun _ => [], fun _ => []⟩
  badHashes _ := false
  blockCache _ := none
  readBlock hash n := if hash = [n.toUInt8, 0] ∧ n ≤ 4 then some ⟨header n, [], []⟩ else none
  hasState _ := true
  process _ _ := some ⟨0, [], [], []⟩
  currentBlock := ⟨header 4, [], []⟩
  getHeaderByNumber n := some (header n)

/-- The epoch. -/
def epoch : Epoch := ⟨1, 0, 1, 100, 0, 0, 0, 0, validators⟩

/-- The extra data of block 4. -/
def extra : NeatconExtra := ⟨"neatio", 4, 0, false, false, 1, [], [1, 2, 3], none, []⟩

/-- What a step reads at a time. -/
def env (now : Int) : Env where
  lib := lib
  chain := chain
  sha256 _ := 0
  now := now
  nodeID := "N"
  functionTypeFromId _ := none
  getTX3ProofData _ := none
  validateTX3ProofData _ _ := true
  epochBytes _ := []
  epochFromBytes _ := none
  loadNextEpoch := none
  proposeNextEpoch e := e
  validateNextEpoch _ _ := true
  loadLastNeatconExtra := some extra
  currentEpoch := (epoch, some epoch)

/-- A node that has not been started. -/
def blank (address : Bytes) : ConsensusState where
  height := 0
  round := 0
  step := .newHeight
  validators := validators
  proposal := none
  proposalBlock := none
  proposalBlockParts := none
  proposerPeerKey := ""
  lockedRound := -1
  lockedBlock := none
  lockedBlockParts := none
  votes := ⟨"neatio", 1, validators, 0, fun _ => none, fun _ => []⟩
  voteSignAggr := .newHeightVoteSignAggr
  commitRound := -1
  prevoteMaj23SignAggr := none
  precommitMaj23SignAggr := none
  chainID := "neatio"
  privAddress := address
  epoch := epoch
  nextEpoch := some epoch
  ncExtra := extra
  vrfValIndex := -1
  pastRoundStates := []
  blockFromMiner := some ⟨header 5, [], []⟩
  lockedBlockShared := false
  lockedPartsShared := false
  trace := []
  crashed := none

/-- A node at the start of height 5. -/
def node (address : Bytes) : ConsensusState := endState (startNewHeight (env 0)) (blank address)

theorem started_node (address : Bytes) : Started lib (node address) :=
  ⟨env 0, blank address, rfl, rfl, rfl, rfl⟩

/-- Handling inputs, each at a time, one after the other. -/
def run (cs : ConsensusState) (inputs : List (Int × Input)) : ConsensusState :=
  inputs.foldl (fun cs x => step (env x.1) x.2 cs) cs

/-- The inputs can occur, and each step satisfies `p`. -/
def allowed (p : Env → Input → ConsensusState → Bool) :
    ConsensusState → List (Int × Input) → Bool
  | _, [] => true
  | cs, (now, input) :: rest =>
    input.admissible (env now) cs && p (env now) input cs &&
      allowed p (step (env now) input cs) rest

theorem reachable_run {P : Env → Input → ConsensusState → Prop}
    {p : Env → Input → ConsensusState → Bool} (hp : ∀ env input cs, p env input cs → P env input cs)
    (inputs : List (Int × Input)) {cs : ConsensusState} (hcs : Reachable lib P cs)
    (h : allowed p cs inputs = true) : Reachable lib P (run cs inputs) := by
  induction inputs generalizing cs with
  | nil => exact hcs
  | cons x _ ih =>
    obtain ⟨_, input⟩ := x
    simp only [allowed, Bool.and_eq_true] at h
    exact ih (.step hcs rfl h.1.1 (hp _ _ _ h.1.2)) h.2

/-- A timeout of height 5. -/
def timeout (r : Int) (st : RoundStep) : Int × Input := (0, .timeout ⟨5, r, st⟩)

/-- The block id of a block. -/
def blockID (k : Int) : BlockID :=
  ⟨match TdmBlock.hash lib (some (block k)) with
    | .ok hash => hash
    | .error _ => [],
    PartSet.header (some ((block k).makePartSet lib 65536))⟩

/-- The proposal of a block, signed by a validator that knows of a majority of prevotes. -/
def polProposal (r : Int) (k : Int) (signer : Bytes) (polRound : Int) (polBlockID : BlockID) :
    Int × Input :=
  let p : Proposal :=
    { height := 5, round := r, hash := (blockID k).hash
      blockPartsHeader := (blockID k).partsHeader, polRound, polBlockID
      proposerPeerKey := "N", signature := [] }
  (0, .msg (.proposal (some { p with signature := signer ++ p.signBytes lib "neatio" })) "N")

/-- The proposal of a block, signed by a validator. -/
def proposal (r : Int) (k : Int) (signer : Bytes) : Int × Input :=
  polProposal r k signer (-1) .zero

/-- The only part of a block. -/
def part (r : Int) (k : Int) : Int × Input :=
  (0, .msg (.blockPart 5 r (((block k).makePartSet lib 65536).parts.getD 0 none)) "N")

/-- The aggregate of one vote, that of the validator `[3]`. -/
def signAggr (r : Int) (type : VoteType) (b : BlockID) : SignAggr :=
  SignAggr.makeSignAggr 5 r type b "neatio" [false, false, true]
    (3 :: lib.voteSignBytes ⟨"neatio", b, 5, r, type⟩)

/-- The arrival of an aggregate. -/
def arrives (sa : SignAggr) : Int × Input := (0, .msg (.maj23SignAggr (some sa)) "N")

/-- A round in which nothing arrives. -/
def skipRound (r : Int) : List (Int × Input) :=
  [timeout r .propose, timeout r .prevoteWait, timeout r .precommitWait]

/-- The validator `[2]` locks a block in round 2 and moves on to round 3. -/
def locks : List (Int × Input) :=
  timeout 0 .newHeight :: skipRound 0 ++ skipRound 1 ++
    [proposal 2 7 [3], part 2 7, arrives (signAggr 2 .prevote (blockID 7)), timeout 2 .precommitWait]

end SmallNet

end NeatPoS
