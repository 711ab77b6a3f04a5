import NeatPoS.Consensus.Effects
import NeatPoS.Consensus.Panics

/-!
# The block that is committed and the block that was voted for

A vote is for a block id: the hash of the block and the header of its part set.  The node compares
hashes.  When it locks the proposal block, and again when it is about to commit it, it asks whether
the *hash* is the one of the majority, and takes for granted that the parts are, too;
`finalizeCommit` panics if they are not.  But the hash of a block covers its consensus data only,
and the part set all of its bytes.

So what decides is whether each hash goes with one parts header.  `OnePartSet f` says that it does
in a step, with `f` for the assignment: for the block that the step completes, for the majority
that it stores, and for a proposal that replaces the parts while a block is held.  In the runs with
such an assignment the node holds what was voted for whenever it locks or commits, and the panic
cannot happen.  A proposer who sends two blocks with the same consensus data makes it happen.
-/

set_option autoImplicit false

namespace NeatPoS

open Stateful Relation

/-- Whenever the node has locked a block or was about to commit one, its parts were those of the
majority. -/
structure HoldsVoted (cs : ConsensusState) : Prop where
  locks : ∀ before r b, .polka before r b .lock ∈ cs.trace →
    PartSet.hasHeader before.proposalBlockParts b.partsHeader = true
  commits : ∀ rs b, .finalizeCommit rs b ∈ cs.trace →
    PartSet.hasHeader rs.proposalBlockParts b.partsHeader = true
  noPanic : cs.crashed ≠ some partsHeaderPanic

/-- The header belongs to the hash of the consensus data.  On a side chain `finalizeCommit` may
raise two flags in them, and the header must not change with these. -/
structure HashHeader (lib : Neatlib) (f : Bytes → PartSetHeader) (te : NeatconExtra)
    (h : PartSetHeader) : Prop where
  hash : f (te.hash lib) = h
  flags : isMainChain te.chainID = false → ∀ save broadcast,
    f (NeatconExtra.hash lib { te with needToSave := save, needToBroadcast := broadcast }) = h

instance (lib : Neatlib) (f : Bytes → PartSetHeader) (te : NeatconExtra) (h : PartSetHeader) :
    Decidable (HashHeader lib f te h) :=
  decidable_of_iff (f (te.hash lib) = h ∧ (isMainChain te.chainID = false → ∀ save broadcast,
    f (NeatconExtra.hash lib { te with needToSave := save, needToBroadcast := broadcast }) = h))
    ⟨fun h ↦ ⟨h.1, h.2⟩, fun h ↦ ⟨h.1, h.2⟩⟩

/-- The proposal that the input brings. -/
def Input.proposal : Input → Option Proposal
  | .msg (.proposal p) _ => p
  | _ => none

/-- The aggregate that the input brings. -/
def Input.signAggr : Input → Option SignAggr
  | .msg (.maj23SignAggr sa) _ => sa
  | _ => none

/-- In this step, each hash goes with one parts header. -/
structure OnePartSet (f : Bytes → PartSetHeader) (env : Env) (input : Input)
    (cs : ConsensusState) : Prop where
  /-- The block that is completed has the header of its hash. -/
  block : ∀ ps ∈ completedParts env cs input, ∀ block ∈ env.lib.blockFromBytes ps.getReader,
    ∀ te ∈ block.ncExtra, HashHeader env.lib f te (PartSet.header (some ps))
  /-- The majority that is stored has the header of its hash. -/
  majority : ∀ sa ∈ input.signAggr, sa.height = cs.height →
    signAggrAccepted env.lib cs.validators sa = true → sa.maj23.hash ≠ [] →
    f sa.maj23.hash = sa.maj23.partsHeader
  /-- A proposal that arrives when there is a proposal block has the header of its hash. -/
  proposal : ∀ p ∈ input.proposal, storesProposal env cs p = true →
    ∀ block ∈ cs.proposalBlock, ∀ te ∈ block.ncExtra, HashHeader env.lib f te p.blockPartsHeader

instance (f : Bytes → PartSetHeader) (env : Env) (input : Input) (cs : ConsensusState) :
    Decidable (OnePartSet f env input cs) :=
  decidable_of_iff
    ((∀ ps ∈ completedParts env cs input, ∀ block ∈ env.lib.blockFromBytes ps.getReader,
      ∀ te ∈ block.ncExtra, HashHeader env.lib f te (PartSet.header (some ps))) ∧
    (∀ sa ∈ input.signAggr, sa.height = cs.height →
      signAggrAccepted env.lib cs.validators sa = true → sa.maj23.hash ≠ [] →
      f sa.maj23.hash = sa.maj23.partsHeader) ∧
    ∀ p ∈ input.proposal, storesProposal env cs p = true →
      ∀ block ∈ cs.proposalBlock, ∀ te ∈ block.ncExtra,
        HashHeader env.lib f te p.blockPartsHeader)
    ⟨fun h ↦ ⟨h.1, h.2.1, h.2.2⟩, fun h ↦ ⟨h.block, h.majority, h.proposal⟩⟩

/-! ## What the node holds -/

/-- The parts are those that belong to the hash of the block. -/
def Fits (lib : Neatlib) (f : Bytes → PartSetHeader) (block : Option TdmBlock)
    (parts : Option PartSet) : Prop :=
  ∀ b te, block = some b → b.ncExtra = some te →
    ∃ ps, parts = some ps ∧ HashHeader lib f te (PartSet.header (some ps))

section

variable {lib : Neatlib} {f : Bytes → PartSetHeader}

theorem fits_none (parts : Option PartSet) : Fits lib f none parts :=
  fun _ _ hb ↦ absurd hb (by simp)

/-- Only the header of the parts matters. -/
theorem Fits.of_header {block : Option TdmBlock} {ps ps' : PartSet} (h : Fits lib f block (some ps))
    (heq : PartSet.header (some ps') = PartSet.header (some ps)) :
    Fits lib f block (some ps') := by
  intro b te hb hte
  obtain ⟨_, hps, hh⟩ := h b te hb hte
  cases hps
  exact ⟨ps', rfl, heq ▸ hh⟩

/-- A block that hashes to `h` comes with the parts of `h`. -/
theorem Fits.hasHeader {block : Option TdmBlock} {parts : Option PartSet} {h : Bytes}
    (hf : Fits lib f block parts) (hh : TdmBlock.hashesTo lib block h = .ok true) :
    PartSet.hasHeader parts (f h) = true := by
  obtain ⟨hne, hb, hhash⟩ := TdmBlock.hashesTo_eq_true.1 hh
  obtain ⟨b, rfl⟩ := Option.ne_none_iff_exists'.1 hb
  rw [TdmBlock.hash] at hhash
  split at hhash
  · cases hhash
  rename_i te hte
  obtain ⟨ps, rfl, hheader⟩ := hf b te rfl hte
  have hhash' := Except.ok.inj hhash
  split at hhash'
  · exact absurd hhash'.symm hne
  · rw [PartSet.hasHeader_iff]
    exact ⟨ps, rfl, by rw [← hheader.hash, hhash']⟩

/-- Filling in the commit does not change which parts belong to the block. -/
theorem HashHeader.sealed {env : Env} {block sealed : TdmBlock} {te te' : NeatconExtra}
    {commit : Commit} {h : PartSetHeader} (hh : HashHeader lib f te h)
    (hs : sealBlock env block te commit = .ok sealed) (hte : sealed.ncExtra = some te') :
    HashHeader lib f te' h := by
  rw [sealBlock] at hs
  split at hs
  · cases hs
    cases hte
    exact ⟨hh.hash, hh.flags⟩
  · rename_i hmain
    cases hw : hasWithdrawFromSideChain env block.block.transactions with
    | error =>
      rw [hw] at hs
      exact absurd hs (by simp [bind, Except.bind])
    | ok =>
      rw [hw] at hs
      cases hs
      cases hte
      have hmain' : isMainChain te.chainID = false := by simpa using hmain
      exact ⟨hh.flags hmain' _ _, fun _ _ _ ↦ hh.flags hmain' _ _⟩

/-- Both the proposal block and the locked one fit their parts, and what is said to be shared
is. -/
structure Holding (lib : Neatlib) (f : Bytes → PartSetHeader) (s : ConsensusState) : Prop where
  proposal : Fits lib f s.proposalBlock s.proposalBlockParts
  locked : Fits lib f s.lockedBlock s.lockedBlockParts
  sharedBlock : s.lockedBlockShared = true → s.lockedBlock = s.proposalBlock
  sharedParts : s.lockedPartsShared = true → s.lockedBlockParts = s.proposalBlockParts

variable {env : Env} {s s' : ConsensusState}

theorem Holding.signs {type : VoteType} {b : BlockID} (h : Holding lib f s)
    (hs : Signs env type b s s') : Holding lib f s' := by
  cases hs <;> exact ⟨h.proposal, h.locked, h.sharedBlock, h.sharedParts⟩

theorem Holding.prevotes (h : Holding lib f s) (hs : Prevotes env s s') : Holding lib f s' := by
  cases hs with
  | none => exact ⟨h.proposal, h.locked, h.sharedBlock, h.sharedParts⟩
  | vote vrf _ _ hs =>
    have h' : Holding lib f { s with vrfValIndex := vrf } :=
      ⟨h.proposal, h.locked, h.sharedBlock, h.sharedParts⟩
    exact h'.signs hs

theorem Holding.afterPrevote (r : Int) (h : Holding lib f s) :
    Holding lib f (afterPrevote r s) := by
  rcases afterPrevote_cases r s with ⟨heq, -⟩ | heq
  · rwa [heq]
  · rw [heq]
    exact ⟨h.proposal, h.locked, h.sharedBlock, h.sharedParts⟩

theorem Holding.unlock (r : Int) (b : BlockID) (h : Holding lib f s) :
    Holding lib f (s.unlock r b) where
  proposal := h.proposal
  locked := fits_none _
  sharedBlock h := absurd h (by simp [ConsensusState.unlock])
  sharedParts h := absurd h (by simp [ConsensusState.unlock])

theorem Holding.fetches {header : PartSetHeader} (h : Holding lib f s)
    (hf : Fetches header s s') : Holding lib f s' := by
  cases hf with
  | not => exact h
  | half => exact ⟨fits_none _, h.locked, fun h ↦ absurd h (by simp), h.sharedParts⟩
  | all => exact ⟨fits_none _, h.locked, fun h ↦ absurd h (by simp), fun h ↦ absurd h (by simp)⟩

theorem Holding.precommits {r : Int} (h : Holding lib f s) (hv : Precommits env r s s') :
    Holding lib f s' := by
  cases hv with
  | abstain hs => exact h.signs hs
  | relock b _ _ hs =>
    have h' : Holding lib f (s.relock r b) :=
      ⟨h.proposal, h.locked, h.sharedBlock, h.sharedParts⟩
    exact h'.signs hs
  | lock b _ _ _ hs =>
    have h' : Holding lib f (s.lock r b) :=
      ⟨h.proposal, h.proposal, fun _ ↦ rfl, fun _ ↦ rfl⟩
    exact h'.signs hs
  | unlock b _ _ hf hs => exact ((h.unlock r b).fetches hf).signs hs

/-- A further part does not change the header. -/
theorem Holding.putParts {ps ps' : PartSet} (h : Holding lib f s)
    (hps : s.proposalBlockParts = some ps)
    (heq : PartSet.header (some ps') = PartSet.header (some ps)) :
    Holding lib f (s.putParts ps') := by
  refine ⟨Fits.of_header (hps ▸ h.proposal) heq, ?_, h.sharedBlock, fun hs ↦ ?_⟩
  · have hlocked := h.locked
    rw [ConsensusState.putParts]
    simp only
    split
    · rename_i hshared
      rw [h.sharedParts hshared, hps] at hlocked
      exact hlocked.of_header heq
    · exact hlocked
  · have hs' : s.lockedPartsShared = true := hs
    simp only [ConsensusState.putParts, hs', if_true]

theorem Holding.clearRound (h : Holding lib f s) : Holding lib f (clearRound s) where
  proposal := fits_none _
  locked := h.locked
  sharedBlock h := absurd h (by simp [NeatPoS.clearRound])
  sharedParts h := absurd h (by simp [NeatPoS.clearRound])

end

variable {f : Bytes → PartSetHeader}

/-- What the node holds keeps fitting. -/
theorem holding_move {env : Env} {start s s' : ConsensusState}
    {input : Input} (hP : OnePartSet f env input start) (h : Holding env.lib f s)
    (hm : Move env start input s s') : Holding env.lib f s' := by
  have hsame : ∀ s' : ConsensusState, s'.proposalBlock = s.proposalBlock →
      s'.proposalBlockParts = s.proposalBlockParts → s'.lockedBlock = s.lockedBlock →
      s'.lockedBlockParts = s.lockedBlockParts → s'.lockedBlockShared = s.lockedBlockShared →
      s'.lockedPartsShared = s.lockedPartsShared → Holding env.lib f s' := by
    intro s' h₁ h₂ h₃ h₄ h₅ h₆
    exact ⟨h₁ ▸ h₂ ▸ h.proposal, h₃ ▸ h₄ ▸ h.locked, by rw [h₅, h₃, h₁]; exact h.sharedBlock,
      by rw [h₆, h₄, h₂]; exact h.sharedParts⟩
  cases hm with
  | upkeep | propose | signAggr | finalize | sendAggr => exact hsame _ rfl rfl rfl rfl rfl rfl
  | newRound =>
    rw [ConsensusState.enterRound]
    split
    · exact Holding.clearRound (hsame _ rfl rfl rfl rfl rfl rfl)
    · exact hsame _ rfl rfl rfl rfl rfl rfl
  | lower => exact Holding.clearRound (hsame _ rfl rfl rfl rfl rfl rfl)
  | proposal p _ _ key hin _ _ _ hblock hparts =>
    rcases hparts with ⟨rfl, rfl⟩ | ⟨hparts, rfl⟩
    · exact hsame _ rfl rfl rfl rfl rfl rfl
    refine ⟨fun b te hb hte ↦ ?_, h.locked, h.sharedBlock, fun h ↦ absurd h (by simp)⟩
    obtain ⟨ps, rfl, hheader⟩ := PartSet.hasHeader_iff.1 hparts
    rcases hblock with hnone' | ⟨hstart, hstores⟩
    · exact absurd (hnone'.symm.trans hb) (by simp)
    · obtain ⟨key, rfl⟩ := hin
      have hb' : start.proposalBlock = some b :=
        (congrArg RoundState.proposalBlock hstart).symm.trans hb
      exact ⟨ps, rfl, hheader ▸ hP.proposal p rfl hstores b hb' te hte⟩
  | part _ _ _ _ _ hps hadd => exact h.putParts hps (PartSet.addPart_eq_added hadd).1
  | received _ ps' _ _ _ _ _ _ hps hadd hcomplete hvote =>
    have hput := h.putParts hps (PartSet.addPart_eq_added hadd).1
    have hread : Holding env.lib f ((s.putParts ps').readBlock env ps') :=
      ⟨fun b te hb hte ↦ ⟨ps', rfl, hP.block ps' hcomplete b hb te hte⟩, hput.locked,
        fun h ↦ absurd h (by simp [ConsensusState.readBlock]), hput.sharedParts⟩
    rcases hvote with rfl | ⟨_, -, -, -, hv, rfl⟩
    · exact hread
    · exact (hread.prevotes hv).afterPrevote s.round
  | prevote r _ _ _ _ hvote =>
    split at hvote
    · exact (h.prevotes hvote).afterPrevote r
    · subst hvote
      exact h.afterPrevote r
  | precommit _ _ _ _ _ hvote =>
    have h₁ := h.precommits hvote
    exact ⟨h₁.proposal, h₁.locked, h₁.sharedBlock, h₁.sharedParts⟩
  | unlock => exact h.unlock _ _
  | commit _ _ hg =>
    cases hg with
    | adopt => exact ⟨h.locked, h.locked, fun _ ↦ rfl, fun _ ↦ rfl⟩
    | fetch _ hf =>
      have h₁ := h.fetches hf
      exact ⟨h₁.proposal, h₁.locked, h₁.sharedBlock, h₁.sharedParts⟩
  | committed block sealed te _ _ hblock hte hsealed =>
    have hfits : ∀ parts, Fits env.lib f (some block) parts → Fits env.lib f (some sealed) parts := by
      intro parts hf b te' hb hte'
      cases hb
      obtain ⟨ps, hps, hh⟩ := hf block te rfl hte
      exact ⟨ps, hps, hh.sealed hsealed hte'⟩
    refine ⟨hfits _ (hblock ▸ h.proposal), ?_, fun hs ↦ if_pos hs, h.sharedParts⟩
    have hlocked := h.locked
    simp only
    split
    · rename_i hshared
      rw [h.sharedBlock hshared, hblock] at hlocked
      exact hfits _ hlocked
    · exact hlocked
  | newHeight =>
    exact ⟨fits_none _, fits_none _, fun h ↦ absurd h (by simp [ConsensusState.atNewHeight]),
      fun h ↦ absurd h (by simp [ConsensusState.atNewHeight])⟩

/-! ## What the node does with it -/

/-- The blocks fit their parts, the majorities have the header of their hash, and so it was at each
decision. -/
structure PartsInv (lib : Neatlib) (f : Bytes → PartSetHeader) (s : ConsensusState) : Prop where
  holding : Holding lib f s
  majorities : ∀ r t sa, s.voteSignAggr.getSignAggr r t = some sa → sa.maj23.hash ≠ [] →
    f sa.maj23.hash = sa.maj23.partsHeader
  locks : ∀ before r b, .polka before r b .lock ∈ s.trace →
    PartSet.hasHeader before.proposalBlockParts b.partsHeader = true
  commits : ∀ rs b, .finalizeCommit rs b ∈ s.trace →
    PartSet.hasHeader rs.proposalBlockParts b.partsHeader = true

/-- A proposal block with the hash of a stored majority has the parts of the majority. -/
theorem PartsInv.hasHeader {lib : Neatlib} {s : ConsensusState}
    (h : PartsInv lib f s) {r : Int} {t : VoteType} {b : BlockID}
    (hb : SignAggr.twoThirdsMajority (s.voteSignAggr.getSignAggr r t) = some b)
    (hh : TdmBlock.hashesTo lib s.proposalBlock b.hash = .ok true) :
    PartSet.hasHeader s.proposalBlockParts b.partsHeader = true := by
  obtain ⟨sa, hsa, rfl, -⟩ := SignAggr.twoThirdsMajority_eq_some.1 hb
  rw [← h.majorities r t sa hsa (TdmBlock.hashesTo_eq_true.1 hh).1]
  exact h.holding.proposal.hasHeader hh

theorem partsInv_move {env : Env} {start s s' : ConsensusState}
    {input : Input} (hP : OnePartSet f env input start) (h : PartsInv env.lib f s)
    (hm : Move env start input s s') : PartsInv env.lib f s' := by
  refine ⟨holding_move hP h.holding hm, ?_, ?_, ?_⟩
  · rcases hm.learns_cases with ⟨_, _, -, -, -, -, rfl⟩ | hlearns
    · intro r t sa hsa
      rw [ConsensusState.atNewHeight, HeightVoteSignAggr.getSignAggr_newHeightVoteSignAggr] at hsa
      cases hsa
    · intro r t sa hsa hne
      rcases hlearns.aggrs r t sa hsa with hsa | hsa
      · exact h.majorities r t sa hsa hne
      · obtain rfl := hsa.first
        obtain ⟨_, rfl⟩ := hsa.input
        exact hP.majority sa rfl hsa.height hsa.accepted hne
  · intro before r b he
    rcases hm.mem_trace he with he | he
    · exact h.locks before r b he
    · cases he with
      | talk he => exact absurd he (by simp [Event.isTalk])
      | lock _ _ hb hp => exact h.hasHeader hb hp
  · intro rs b he
    rcases hm.mem_trace he with he | he
    · exact h.commits rs b he
    · cases he with
      | talk he => exact absurd he (by simp [Event.isTalk])
      | finalizeCommit _ _ hb hh => exact h.hasHeader hb hh

theorem partsInv_inductive (lib : Neatlib) (f : Bytes → PartSetHeader) :
    Inductive lib (OnePartSet f) (PartsInv lib f) where
  started cs h := by
    obtain ⟨_, _, _, _, -, -, -, -, rfl⟩ := h.eq
    refine ⟨⟨fits_none _, fits_none _, fun h ↦ absurd h (by simp [ConsensusState.atNewHeight]),
      fun h ↦ absurd h (by simp [ConsensusState.atNewHeight])⟩, fun r t sa hsa ↦ ?_, ?_, ?_⟩
    · rw [ConsensusState.atNewHeight, HeightVoteSignAggr.getSignAggr_newHeightVoteSignAggr] at hsa
      exact absurd hsa (by simp)
    · intro before r b he
      exact absurd he (by simp)
    · intro rs b he
      exact absurd he (by simp)
  crashed _ _ h :=
    ⟨⟨h.holding.proposal, h.holding.locked, h.holding.sharedBlock, h.holding.sharedParts⟩,
      h.majorities, h.locks, h.commits⟩
  move _ _ _ _ _ hlib _ hP _ hs hm := by
    subst hlib
    exact partsInv_move hP hs hm

/-- A node that has died of the panic has left the reason in its trace. -/
theorem misfit_of_crashed {lib : Neatlib} {P : Env → Input → ConsensusState → Prop}
    {cs : ConsensusState} (h : Reachable lib P cs) (hc : cs.crashed = some partsHeaderPanic) :
    Misfit cs.trace := by
  induction h with
  | started hs =>
    obtain ⟨env, _, _, _, -, hnone, -, -, rfl⟩ := hs.eq
    exact absurd (hnone.symm.trans hc) (by simp)
  | @step cs env input _ _ _ _ ih =>
    rw [step] at hc ⊢
    split at hc
    · rename_i hcrashed
      rw [if_pos hcrashed]
      exact ih hc
    · rename_i hcrashed
      rw [if_neg hcrashed]
      exact (handle_blames env input).of_error cs hc

/-- **The parts are those that were voted for**, in every run in which each hash goes with one parts
header. -/
theorem holdsVoted_of_onePartSet {lib : Neatlib} {f : Bytes → PartSetHeader} {cs : ConsensusState}
    (h : Reachable lib (OnePartSet f) cs) : HoldsVoted cs := by
  have hinv := (partsInv_inductive lib f).reachable h
  refine ⟨hinv.locks, hinv.commits, fun hc ↦ ?_⟩
  obtain ⟨rs, b, he, hheader⟩ := misfit_of_crashed h hc
  rw [hinv.commits rs b he] at hheader
  cases hheader

namespace SmallNet

/-- Round 0 as the validator `[2]` sees it: the proposer sends it the block `k'`, and the others
vote for the block `k`. -/
def decides (k k' : Int) : List (Int × Input) :=
  [timeout 0 .newHeight, proposal 0 k' [1], part 0 k',
    arrives (signAggr 0 .prevote (blockID k)), arrives (signAggr 0 .precommit (blockID k))]

/-- The parts headers of the blocks of honest proposers. -/
def headerOf (hash : Bytes) : PartSetHeader :=
  (((List.range 10).map fun k => blockID k).find? fun b => b.hash == hash).elim ⟨0, []⟩
    (·.partsHeader)

end SmallNet

open SmallNet in
theorem holdsVoted_of_honest :
    (run (node [2]) (decides 7 7)).lockedRound = 0 ∧ HoldsVoted (run (node [2]) (decides 7 7)) :=
  ⟨by decide +kernel, holdsVoted_of_onePartSet (f := headerOf)
    (reachable_run (fun _ _ _ h ↦ of_decide_eq_true h) _ (.started (started_node [2]))
      (by decide +kernel))⟩

open SmallNet in
/-- **The panic can be reached**: the proposer of round 0 has sent the block 7 to the others and its
twin to the validator `[2]`, which locks the twin and dies when it is to commit the block 7. -/
theorem misfit_of_twin : ∃ cs, Reachable lib (fun _ _ _ ↦ True) cs ∧ ¬ HoldsVoted cs := by
  have hallowed : allowed (fun _ _ _ ↦ true) (node [2]) (decides 7 201) = true := by decide +kernel
  have hcrash : (run (node [2]) (decides 7 201)).crashed = some partsHeaderPanic := by
    decide +kernel
  exact ⟨_, reachable_run (fun _ _ _ _ ↦ trivial) _ (.started (started_node [2])) hallowed,
    fun h ↦ h.noPanic hcrash⟩

end NeatPoS
