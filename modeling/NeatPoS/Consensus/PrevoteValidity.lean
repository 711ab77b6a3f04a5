import NeatPoS.Consensus.Runs

/-!
# What a prevote says about the block

A node that did not propose checks the proposal block before it prevotes it, in three places:
`ValidateBasic` looks at the chain id and the height in the consensus data, `ValidateBlock` at the
form of the header and at the execution of the block on top of *its own* parent, and
`ValidateNextEpoch` at the epoch that may be proposed in the block.  `blockAccepted` is the
conjunction, and `prevotesBlock_iff` says that it is all that decides.

None of the three compares the number of the block, its parent, its epoch number or its validators'
hash with the node's own.  So whether a prevoted block belongs where it is prevoted depends on who
made it: it does exactly if the four agree, or one of the checks happens to refuse the block.
-/

set_option autoImplicit false

namespace NeatPoS

open Stateful Relation

/-- What was added to the trace. -/
def newEvents (before after : ConsensusState) : List Event :=
  after.trace.take (after.trace.length - before.trace.length)

/-- `defaultDoPrevote` prevotes a block. -/
def PrevotesBlock (env : Env) (cs : ConsensusState) : Prop :=
  ∃ rs v, .signed rs v ∈ newEvents cs (endState (defaultDoPrevote env) cs) ∧
    v.type = .prevote ∧ v.blockID.hash ≠ []

/-- A validator that is not the proposer, holds no lock and has received the proposal block. -/
structure Ready (env : Env) (cs : ConsensusState) (block : TdmBlock) : Prop where
  validator : cs.validators.hasAddress cs.privAddress = true
  notProposer : ∃ cs', isProposer env cs = .ok false cs'
  unlocked : cs.lockedBlock = none
  block : cs.proposalBlock = some block

/-- The block is for the height, the head, the epoch and the chain of the node. -/
structure BelongsHere (env : Env) (cs : ConsensusState) (block : TdmBlock) : Prop where
  number : block.block.header.number = some cs.height
  parent : block.block.header.parentHash = env.chain.currentBlock.hash env.chain.keccak
  extra : ∃ te, block.ncExtra = some te ∧ te.epochNumber = cs.epoch.number ∧
    te.validatorsHash = cs.epoch.validators.hash env.lib ∧ te.chainID = cs.ncExtra.chainID

/-- All checks of `defaultDoPrevote` pass, and the block has a hash. -/
def blockAccepted (env : Env) (cs : ConsensusState) (block : TdmBlock) : Bool :=
  match proposalBasicsOk env cs block, nextEpochOk env cs block,
    TdmBlock.hash env.lib (some block) with
  | .ok true, .ok true, .ok hash => (env.chain.validateBlock block.block).isNone && !hash.isEmpty
  | _, _, _ => false

/-- What no check looks at: the number, the parent, the epoch number and the validators' hash. -/
def agreesWithNode (env : Env) (cs : ConsensusState) (block : TdmBlock) : Bool :=
  block.block.header.number == some cs.height &&
    block.block.header.parentHash == env.chain.currentBlock.hash env.chain.keccak &&
    block.ncExtra.any fun te =>
      te.epochNumber == cs.epoch.number && te.validatorsHash == cs.epoch.validators.hash env.lib

/-! ## When a block is prevoted -/

section

variable {env : Env} {cs : ConsensusState} {block : TdmBlock}

theorem newEvents_eq {before after : ConsensusState} {l : List Event}
    (h : after.trace = l ++ before.trace) : newEvents before after = l := by
  rw [newEvents, h, List.length_append, Nat.add_sub_cancel, List.take_left]

/-- The votes among the new events that are prevotes for a block. -/
def VotesBlock (before after : ConsensusState) : Prop :=
  ∃ rs v, .signed rs v ∈ newEvents before after ∧ v.type = .prevote ∧ v.blockID.hash ≠ []

theorem not_votesBlock_of_trace_eq {after : ConsensusState} (h : after.trace = cs.trace) :
    ¬ VotesBlock cs after := by
  rintro ⟨_, _, hv, -⟩
  rw [newEvents_eq (l := []) h] at hv
  simp at hv

theorem votesBlock_signAddVote (hmem : cs.validators.hasAddress cs.privAddress = true) (vrf : Int)
    (b : BlockID) :
    VotesBlock cs (endState (signAddVote env .prevote b) { cs with vrfValIndex := vrf }) ↔
      b.hash ≠ [] := by
  have hmem' : ({ cs with vrfValIndex := vrf } : ConsensusState).validators.hasAddress
    ({ cs with vrfValIndex := vrf } : ConsensusState).privAddress = true := hmem
  obtain ⟨_, _, htalk, h⟩ := endState_signAddVote env .prevote b hmem'
  rw [h, VotesBlock, newEvents_eq (List.append_cons ..)]
  constructor
  · rintro ⟨_, _, hv, -, hne⟩
    rcases List.mem_append.1 hv with hv | hv
    · exact absurd (htalk _ hv) (by simp [Event.isTalk])
    · cases List.mem_singleton.1 hv
      exact hne
  · intro hne
    exact ⟨_, _, List.mem_append_right _ (List.mem_singleton_self _), rfl, hne⟩

/-- **What decides about a prevote**: the checks, and nothing else. -/
theorem prevotesBlock_iff (h : Ready env cs block) :
    PrevotesBlock env cs ↔ blockAccepted env cs block = true := by
  obtain ⟨_, hnot⟩ := h.notProposer
  obtain ⟨i, hi⟩ := endState_isProposer env cs
  rw [endState_of_ok hnot] at hi
  subst hi
  have hnil : ∀ vrf, VotesBlock cs (endState (signAddVote env .prevote .zero)
      { cs with vrfValIndex := vrf }) ↔ False := fun vrf ↦ by
    rw [votesBlock_signAddVote h.validator]
    simp [BlockID.zero]
  change VotesBlock cs (endState (defaultDoPrevote env) cs) ↔ _
  simp only [defaultDoPrevote, endState_get_bind, h.block, blockAccepted]
  rw [if_neg (by simp [h.unlocked]), endState_fromExcept_bind]
  cases proposalBasicsOk env cs block with
  | error => exact iff_of_false (not_votesBlock_of_trace_eq rfl) (by simp)
  | ok basics =>
    cases basics with
    | false => simpa using hnil cs.vrfValIndex
    | true =>
      simp only [Bool.not_true, Bool.false_eq_true, if_false]
      rw [endState_bind, hnot]
      simp only [Bool.not_false, Bool.true_and]
      cases env.chain.validateBlock block.block with
      | some =>
        rw [if_pos (by simp), hnil]
        cases nextEpochOk env cs block with
        | error => simp
        | ok epochOk => cases epochOk <;> cases TdmBlock.hash env.lib (some block) <;> simp
      | none =>
        rw [if_neg (by simp), endState_fromExcept_bind]
        cases nextEpochOk env cs block with
        | error => exact iff_of_false (not_votesBlock_of_trace_eq rfl) (by simp)
        | ok epochOk =>
          cases epochOk with
          | false => simpa using hnil i
          | true =>
            simp only [Bool.not_true, Bool.false_eq_true, if_false, endState_fromExcept_bind]
            cases TdmBlock.hash env.lib (some block) with
            | error => exact iff_of_false (not_votesBlock_of_trace_eq rfl) (by simp)
            | ok =>
              simp only [votesBlock_signAddVote h.validator]
              simp

/-! ## Which blocks belong where they are prevoted -/

/-- `ValidateBasic` does compare the chain id. -/
theorem chainID_of_blockAccepted {te : NeatconExtra} (h : blockAccepted env cs block = true)
    (hte : block.ncExtra = some te) : te.chainID = cs.ncExtra.chainID := by
  rw [blockAccepted] at h
  split at h
  · rename_i hbasics _ _
    rw [proposalBasicsOk, TdmBlock.validateBasic, hte] at hbasics
    by_contra hne
    simp [bind, Except.bind, pure, Except.pure, hne] at hbasics
  · cases h

theorem belongsHere_iff (h : blockAccepted env cs block = true) :
    BelongsHere env cs block ↔ agreesWithNode env cs block = true := by
  simp only [agreesWithNode, Bool.and_eq_true, beq_iff_eq, Option.any_eq_true]
  constructor
  · rintro ⟨hn, hp, te, hte, he, hv, -⟩
    exact ⟨⟨hn, hp⟩, te, hte, he, hv⟩
  · rintro ⟨⟨hn, hp⟩, te, hte, he, hv⟩
    exact ⟨hn, hp, te, hte, he, hv, chainID_of_blockAccepted h hte⟩

/-- **Which proposals are safe to receive.**  Prevoting implies that the block belongs where it is
prevoted exactly for the blocks that a check refuses and for those whose number, parent, epoch
number and validators' hash agree with the node's. -/
theorem prevote_valid_iff {env : Env} {cs : ConsensusState} {block : TdmBlock}
    (h : Ready env cs block) :
    (PrevotesBlock env cs → BelongsHere env cs block) ↔
      blockAccepted env cs block = false ∨ agreesWithNode env cs block = true := by
  rw [prevotesBlock_iff h]
  cases hacc : blockAccepted env cs block with
  | false => simp
  | true => simp [belongsHere_iff hacc]

end

namespace SmallNet

/-- A proposal arrives before round 0 has begun. -/
def early (k : Int) : ConsensusState := run (node [2]) [proposal 0 k [1], part 0 k]

theorem early_ready {k : Int} (hval : (early k).validators.hasAddress (early k).privAddress = true)
    (hnot : (match isProposer (env 0) (early k) with
      | .ok p _ => p
      | .error _ _ => true) = false)
    (hlock : (early k).lockedBlock = none) (hblock : (early k).proposalBlock = some (block k)) :
    Ready (env 0) (early k) (block k) := by
  refine ⟨hval, ?_, hlock, hblock⟩
  cases h : isProposer (env 0) (early k) with
  | ok _ cs' =>
    rw [h] at hnot
    exact ⟨cs', by rw [← hnot]⟩
  | error =>
    rw [h] at hnot
    cases hnot

end SmallNet

open SmallNet in
theorem prevote_valid_iff_honest :
    (PrevotesBlock (SmallNet.env 0) (early 7) → BelongsHere (SmallNet.env 0) (early 7) (block 7)) ↔
      blockAccepted (SmallNet.env 0) (early 7) (block 7) = false ∨
        agreesWithNode (SmallNet.env 0) (early 7) (block 7) = true :=
  prevote_valid_iff (early_ready (by decide +kernel) (by decide +kernel) (by decide +kernel)
    (by decide +kernel))

open SmallNet in
/-- **A stray block is prevoted**: at height 5, on top of block 4, the node prevotes a block of
height 3 on top of block 2, with the epoch number 99. -/
theorem prevotes_stray_block :
    Reachable lib (fun _ _ _ ↦ True) (early 200) ∧
      Ready (SmallNet.env 0) (early 200) stray ∧ PrevotesBlock (SmallNet.env 0) (early 200) ∧
      ¬ BelongsHere (SmallNet.env 0) (early 200) stray := by
  have hallowed : allowed (fun _ _ _ ↦ true) (node [2]) [proposal 0 200 [1], part 0 200] = true :=
    by decide +kernel
  have hready : Ready (SmallNet.env 0) (early 200) stray :=
    early_ready (k := 200) (by decide +kernel) (by decide +kernel) (by decide +kernel)
      (by decide +kernel)
  refine ⟨reachable_run (fun _ _ _ _ ↦ trivial) _ (.started (started_node [2])) hallowed, hready,
    (prevotesBlock_iff hready).2 (by decide +kernel), fun h ↦ ?_⟩
  have hnumber : stray.block.header.number ≠ some (early 200).height := by decide +kernel
  exact hnumber h.number

end NeatPoS
