import NeatPoS.Consensus.Justification
import NeatPoS.Consensus.Network

/-!
# Agreement

In a network in which everybody is honest, no two nodes should commit different blocks at one
height, whatever becomes of the messages.  The argument is the usual one: whoever has precommitted
a block prevotes nothing else before it has seen a majority of prevotes for something else, so once
a majority has precommitted a block there is no majority of prevotes for anything else any more.
`NeatPoS.Lib.VoteHistory` makes it, about any history of votes in which everyone keeps to that.

What is left is to see that the nodes do.  `NodeInv` says how the state of a node and the history of
all votes belong together, and the clause that carries the argument is `LockKept`: for each block
that the node has precommitted, it is locked on it, or there was such a majority.  A node that never
goes back to a lower round keeps it.

One that does go back is still locked, but may now unlock because of prevotes of a round before the
lock's.  Nobody has to be dishonest for that to end in two blocks being committed; the last section
has the run.
-/

set_option autoImplicit false

namespace NeatPoS

open Stateful Relation Quorum VoteHistory

/-- No two nodes have been about to commit blocks with different hashes at one height. -/
def Agreement {ι : Type} (nodes : ι → ConsensusState) : Prop :=
  ∀ i j rs b rs' b', .finalizeCommit rs b ∈ (nodes i).trace →
    .finalizeCommit rs' b' ∈ (nodes j).trace → rs.height = rs'.height → b.hash = b'.hash

/-! ## A node and the history of all votes -/

section

variable {valsAt : Nat → ValidatorSet} (hn : ∀ h, ∀ w ∈ (valsAt h).powers, 0 ≤ w)

/-- The history has a quorum of such votes at a height. -/
abbrev QuorumAt (votes : List Vote) (height : Nat) (k : Kind) (r : Int) (v : Option Bytes) :
    Prop :=
  HasQuorum ((valsAt height).majorities (hn height)) (castsAt height votes) k r v

/-- A history of votes of validators that have kept the discipline. -/
structure HistoryOk (votes : List Vote) : Prop where
  lawful : ∀ h, Lawful ((valsAt h).majorities (hn h)) (castsAt h votes)
  signer : ∀ v ∈ votes, (valsAt v.height).hasAddress v.validatorAddress = true ∧
    v.validatorIndex = ((valsAt v.height).getByAddress v.validatorAddress).1
  type : ∀ v ∈ votes, v.type = .prevote ∨ v.type = .precommit

/-- For each block that the node has precommitted at its height: it is locked on the block, or a
later round had a majority of prevotes for something else. -/
def LockKept (lib : Neatlib) (votes : List Vote) (s : ConsensusState) : Prop :=
  ∀ rs v w, .signed rs v ∈ s.trace → v.height = s.height → v.type = .precommit →
    v.blockID.value = some w →
    TdmBlock.hashesTo lib s.lockedBlock w = .ok true ∧ v.round ≤ s.lockedRound ∨
      ∃ r' v', v.round < r' ∧ r' ≤ s.round ∧ v' ≠ some w ∧
        QuorumAt hn votes s.height .prevote r' v'

/-- What a node and the history of all votes have to do with each other. -/
structure NodeInv (lib : Neatlib) (votes : List Vote) (s : ConsensusState) : Prop where
  order : InOrder s
  accepted : AggrsAccepted lib s
  validators : s.validators = valsAt s.height
  /-- The node's votes are part of the history. -/
  signed : ∀ rs v, .signed rs v ∈ s.trace → v ∈ votes
  /-- Nobody else votes in its name. -/
  own : ∀ v ∈ votes, v.validatorAddress = s.privAddress → ∃ rs, .signed rs v ∈ s.trace
  /-- The votes it has collected are part of the history. -/
  held : s.votes.AllVotes (· ∈ votes)
  heldHeight : s.votes.height = s.height
  /-- So are those behind the aggregates it has stored. -/
  stored : ∀ r t sa, s.voteSignAggr.getSignAggr r t = some sa → BitsSigned votes sa
  /-- And those behind the aggregates it has sent. -/
  sent : ∀ sa, .signAggr sa ∈ s.trace → BitsSigned votes sa
  lock : s.step ≠ .commit → LockKept hn lib votes s
  /-- A majority has precommitted what it commits. -/
  commits : ∀ rs b, .finalizeCommit rs b ∈ s.trace →
    ∃ r, QuorumAt hn votes rs.height .precommit r (some b.hash)

/-- What the input says about votes is part of the history. -/
structure Heard (votes : List Vote) (input : Input) : Prop where
  vote : ∀ v key, input = .msg (.vote (some v)) key → v ∈ votes
  aggr : ∀ sa key, input = .msg (.maj23SignAggr (some sa)) key → BitsSigned votes sa

variable {hn} {lib : Neatlib} {votes votes' : List Vote} {s s' : ConsensusState}

theorem Heard.mono {input : Input} (h : Heard votes input) (hsub : ∀ v ∈ votes, v ∈ votes') :
    Heard votes' input :=
  ⟨fun v key hv ↦ hsub v (h.vote v key hv), fun sa key hsa ↦ (h.aggr sa key hsa).mono hsub⟩

theorem LockKept.mono (h : LockKept hn lib votes s) (hsub : ∀ v ∈ votes, v ∈ votes') :
    LockKept hn lib votes' s := by
  intro rs v w hv hh ht hw
  rcases h rs v w hv hh ht hw with hl | ⟨r', v', hlt, hle, hne, hq⟩
  · exact .inl hl
  · exact .inr ⟨r', v', hlt, hle, hne, hasQuorum_mono hsub hq⟩

section

variable (h : NodeInv hn lib votes s)
include h

/-- The votes of others do not concern a node. -/
theorem NodeInv.mono (hsub : ∀ v ∈ votes, v ∈ votes')
    (hnew : ∀ v ∈ votes', v ∈ votes ∨ v.validatorAddress ≠ s.privAddress) :
    NodeInv hn lib votes' s where
  order := h.order
  accepted := h.accepted
  validators := h.validators
  signed rs v hv := hsub v (h.signed rs v hv)
  own v hv hkey := h.own v ((hnew v hv).resolve_right fun hne ↦ hne hkey) hkey
  held r t vs hvs :=
    ⟨(h.held r t vs hvs).1, fun v hv ↦ ((h.held r t vs hvs).2 v hv).imp (hsub v) id⟩
  heldHeight := h.heldHeight
  stored r t sa hsa := (h.stored r t sa hsa).mono hsub
  sent sa hsa := (h.sent sa hsa).mono hsub
  lock hstep := (h.lock hstep).mono hsub
  commits rs b hb := (h.commits rs b hb).imp fun _ hq ↦ hasQuorum_mono hsub hq

theorem NodeInv.crash (c : Option Panic) :
    NodeInv hn lib votes { s with crashed := c } where
  order := (inOrder_inductive lib).crashed s c h.order
  accepted := h.accepted
  validators := h.validators
  signed := h.signed
  own := h.own
  held := h.held
  heldHeight := h.heldHeight
  stored := h.stored
  sent := h.sent
  lock := h.lock
  commits := h.commits

/-- A stored aggregate is a quorum. -/
theorem NodeInv.quorum {r : Int} {t : VoteType} {b : BlockID}
    (hb : SignAggr.twoThirdsMajority (s.voteSignAggr.getSignAggr r t) = some b) :
    QuorumAt hn votes s.height t.kind r b.value := by
  obtain ⟨sa, hsa, rfl, -⟩ := SignAggr.twoThirdsMajority_eq_some.1 hb
  obtain ⟨rfl, rfl, hheight, hacc⟩ := h.accepted r t sa hsa
  rw [← hheight]
  rw [h.validators, ← hheight] at hacc
  exact (h.stored _ _ sa hsa).hasQuorum hacc

/-- What the history says about the node is in its trace. -/
theorem NodeInv.own_cast (hH : HistoryOk hn votes)
    (hmem : s.validators.hasAddress s.privAddress = true) {k : Kind} {r : Int} {x : Option Bytes}
    (hc : ⟨(s.validators.getByAddress s.privAddress).1, k, r, x⟩ ∈ castsAt s.height votes) :
    ∃ rs v, .signed rs v ∈ s.trace ∧ v.height = s.height ∧ v.type.kind = k ∧ v.round = r ∧
      v.blockID.value = x ∧ (v.type = .prevote ∨ v.type = .precommit) := by
  obtain ⟨v, hv, hh, hcast⟩ := mem_castsAt.1 hc
  simp only [Vote.cast, Cast.mk.injEq] at hcast
  obtain ⟨hindex, hkind, hround, hvalue⟩ := hcast
  obtain ⟨hmem', hindex'⟩ := hH.signer v hv
  rw [hh, ← h.validators] at hmem' hindex'
  have hkey := ValidatorSet.getByAddress_inj hmem' hmem (hindex'.symm.trans hindex)
  obtain ⟨rs, hrs⟩ := h.own v hv hkey
  exact ⟨rs, v, hrs, hh, hkind, hround, hvalue, hH.type v hv⟩

end

end

/-! ## The votes of a node are lawful -/

/-- Whose vote it is, and for which round. -/
structure CastBy (s : ConsensusState) (v : Vote) : Prop where
  height : v.height = s.height
  round : v.round = s.round
  address : v.validatorAddress = s.privAddress
  index : v.validatorIndex = (s.validators.getByAddress s.privAddress).1
  type : v.type = .prevote ∨ v.type = .precommit

variable {rs : RoundState}

theorem NewVote.castBy {env : Env} {start s : ConsensusState} {input : Input}
    {v : Vote} (h : NewVote env start input s rs v) : CastBy s v := by
  cases h with
  | prevote _ _ hh hr hval hkey => exact ⟨hh, hr, hkey, by rw [← hval, ← hkey]; rfl, .inl rfl⟩
  | abstain _ hh hr hval hkey => exact ⟨hh, hr, hkey, by rw [← hval, ← hkey]; rfl, .inr rfl⟩
  | precommit _ _ _ _ hs₀ =>
    rcases hs₀ with ⟨rfl, -⟩ | ⟨rfl, -⟩ <;> exact ⟨rfl, rfl, rfl, rfl, .inr rfl⟩

section

variable {valsAt : Nat → ValidatorSet} {hn : ∀ h, ∀ w ∈ (valsAt h).powers, 0 ≤ w}
  {votes : List Vote} {env : Env} {start s s' : ConsensusState} {input : Input}

theorem type_of_kind {t : VoteType} (h : t = .prevote ∨ t = .precommit)
    (hk : t.kind = .precommit) : t = .precommit := by
  rcases h with rfl | rfl
  · exact absurd hk (by simp [VoteType.kind])
  · rfl

/-- **A node prevotes as it has precommitted**, or after a majority for something else. -/
theorem prevoteOk (hH : HistoryOk hn votes) (h : NodeInv hn env.lib votes s)
    (hmem : s.validators.hasAddress s.privAddress = true) (hstep : s.step ≠ .commit)
    {rs : RoundState} {b : BlockID} (hlock : rs.lockedBlock = s.lockedBlock)
    (hb : PrevoteFor env.lib rs b) :
    PrevoteOk ((valsAt s.height).majorities (hn s.height)) (castsAt s.height votes)
      (s.validators.getByAddress s.privAddress).1 s.round b.value := by
  intro r' w hc hlt
  obtain ⟨rs', v', hv', hh', hkind, hround, hvalue, htype⟩ := h.own_cast hH hmem hc
  rcases h.lock hstep rs' v' w hv' hh' (type_of_kind htype hkind) hvalue with ⟨hl, -⟩ | hq
  · obtain ⟨hne, hsome, hhash⟩ := TdmBlock.hashesTo_eq_true.1 hl
    rw [← hlock] at hsome hhash
    cases hb with
    | locked _ hash =>
      rw [hhash] at hash
      exact .inl (BlockID.value_eq_some.2 ⟨(Except.ok.inj hash).symm, hne⟩)
    | nil hl | proposed hl => exact absurd hl hsome
  · rw [hround] at hq
    exact .inr hq

/-- **A node precommits after a majority of prevotes**, once, and in its latest round. -/
theorem precommitOk (hH : HistoryOk hn votes) (h : NodeInv hn env.lib votes s)
    (hmem : s.validators.hasAddress s.privAddress = true)
    (hstep : s.step.num < RoundStep.precommit.num) {b : BlockID} (hb : s.polka s.round = some b)
    (hne : b.hash ≠ []) :
    PrecommitOk ((valsAt s.height).majorities (hn s.height)) (castsAt s.height votes)
      (s.validators.getByAddress s.privAddress).1 s.round b.hash := by
  refine ⟨?_, fun w hc ↦ ?_, fun r' w hc ↦ ?_⟩
  · have hq := h.quorum hb
    rwa [BlockID.value_eq_some.2 ⟨rfl, hne⟩] at hq
  · obtain ⟨rs, v, hv, hh, hkind, hround, -, htype⟩ := h.own_cast hH hmem hc
    exact absurd (h.order.precommitted rs v hv hh hround (type_of_kind htype hkind))
      (not_le.2 hstep)
  · obtain ⟨rs, v, hv, hh, -, hround, -, -⟩ := h.own_cast hH hmem hc
    rcases h.order.votes rs v hv with hlt | ⟨-, hle⟩
    · exact absurd hh (ne_of_lt hlt)
    · rwa [← hround]

theorem castOk_of_newVote (hadm : input.admissible env start = true) (hstart : InOrder start)
    (hH : HistoryOk hn votes) (h : NodeInv hn env.lib votes s)
    (hmem : s.validators.hasAddress s.privAddress = true) {rs : RoundState} {v : Vote}
    (hv : NewVote env start input s rs v) :
    CastOk ((valsAt s.height).majorities (hn s.height)) (castsAt s.height votes) v.cast := by
  have hby := hv.castBy
  rw [Vote.cast, hby.index, hby.round]
  cases hv with
  | prevote _ _ _ _ _ _ hlock hstep hb =>
    have hstep' := hstep.resolve_right fun hahead ↦ hahead.elim fun _ ↦ hstart.not_ahead hadm
    exact prevoteOk hH h hmem hstep' hlock hb
  | abstain => trivial
  | precommit _ r b hb hs₀ hr heq ahead =>
    have hround : s.round = r :=
      (lt_or_eq_of_le hr).resolve_left fun hlt ↦ hstart.not_ahead hadm (ahead hlt)
    subst hround
    have hne : b.hash ≠ [] := by
      rcases hs₀ with ⟨-, hh⟩ | ⟨-, -, hh⟩ <;> exact (TdmBlock.hashesTo_eq_true.1 hh).1
    change CastOk _ _ ⟨_, .precommit, s.round, b.value⟩
    rw [BlockID.value_eq_some.2 ⟨rfl, hne⟩]
    exact precommitOk hH h hmem (heq rfl) hb hne

theorem HistoryOk.cons (hH : HistoryOk hn votes) (hval : s.validators = valsAt s.height)
    (hmem : s.validators.hasAddress s.privAddress = true) {v : Vote} (hby : CastBy s v)
    (hc : CastOk ((valsAt s.height).majorities (hn s.height)) (castsAt s.height votes) v.cast) :
    HistoryOk hn (v :: votes) := by
  refine ⟨fun h ↦ ?_, fun v' hv' ↦ ?_, fun v' hv' ↦ ?_⟩
  · rw [castsAt_cons]
    split
    · rename_i hh
      rw [hby.height] at hh
      subst hh
      exact ⟨hc, hH.lawful _⟩
    · exact hH.lawful h
  · rcases List.mem_cons.1 hv' with rfl | hv'
    · rw [hby.height, hby.address, ← hval]
      exact ⟨hmem, hby.index⟩
    · exact hH.signer v' hv'
  · rcases List.mem_cons.1 hv' with rfl | hv'
    · exact hby.type
    · exact hH.type v' hv'

end

/-! ## Locks are kept -/

/-- The event is no precommit for a block. -/
def Event.isQuiet (e : Event) : Prop :=
  ∀ v, e.vote = some v → v.type = .precommit → v.blockID.value = none

theorem Event.isQuiet_of_vote {e : Event} (h : e.vote = none) : e.isQuiet := by
  intro v hv
  exact absurd (h.symm.trans hv) (by simp)

variable {s s' : ConsensusState} {env : Env}

theorem Adds.old_precommit (h : Adds Event.isQuiet s s')
    {v : Vote} {w : Bytes} (hv : .signed rs v ∈ s'.trace) (ht : v.type = .precommit)
    (hw : v.blockID.value = some w) : .signed rs v ∈ s.trace := by
  obtain ⟨_, hl, hquiet, -⟩ := h
  rw [hl] at hv
  rcases List.mem_append.1 hv with hv | hv
  · exact absurd ((hquiet _ hv v rfl ht).symm.trans hw) (by simp)
  · exact hv

theorem Prevotes.quiet (h : Prevotes env s s') : Adds Event.isQuiet s s' := by
  refine h.adds (fun e he ↦ Event.isQuiet_of_vote (Event.vote_of_isTalk he)) fun vrf b _ _ v hv ht ↦ ?_
  rw [← Option.some.inj hv] at ht
  exact absurd ht (by simp [signVote])

theorem Signs.quiet (h : Signs env .precommit .zero s s') : Adds Event.isQuiet s s' := by
  refine h.adds (fun e he ↦ Event.isQuiet_of_vote (Event.vote_of_isTalk he)) fun _ v hv _ ↦ ?_
  rw [← Option.some.inj hv]
  rfl

theorem Signs.mem_trace {type : VoteType} {b : BlockID}
    (h : Signs env type b s s') {v : Vote} (hv : .signed rs v ∈ s'.trace) :
    .signed rs v ∈ s.trace ∨ v = signVote env s type b := by
  obtain ⟨_, hl, hnew, -⟩ := h.adds
    (E := fun e ↦ ∀ v, e.vote = some v → v = signVote env s type b)
    (fun e he v hv ↦ absurd ((Event.vote_of_isTalk he).symm.trans hv) (by simp))
    fun _ v hv ↦ (Option.some.inj hv).symm
  rw [hl] at hv
  exact (List.mem_append.1 hv).symm.imp id fun hv ↦ hnew _ hv v rfl

section

variable {valsAt : Nat → ValidatorSet} {hn : ∀ h, ∀ w ∈ (valsAt h).powers, 0 ≤ w}
  {votes : List Vote} {env : Env} {start s s' : ConsensusState} {input : Input}

variable {lib : Neatlib}

section

variable (h : LockKept hn lib votes s)
include h

/-- Without a new precommit and with the lock in place, there is nothing to do. -/
theorem LockKept.keep (hadds : Adds Event.isQuiet s s')
    (hheight : s'.height = s.height) (hblock : s'.lockedBlock = s.lockedBlock)
    (hlocked : s'.lockedRound = s.lockedRound) (hround : s.round ≤ s'.round) :
    LockKept hn lib votes s' := by
  intro rs v w hv hh ht hw
  rw [hblock, hlocked, hheight]
  rcases h rs v w (hadds.old_precommit hv ht hw) (hh.trans hheight) ht hw with
    hl | ⟨r', v', hlt, hle, hq⟩
  · exact .inl hl
  · exact .inr ⟨r', v', hlt, hle.trans hround, hq⟩

/-- Entering the next step. -/
theorem LockKept.tick {ti : TimeoutInfo} {r : Int} {st : RoundStep} (hr : s.round ≤ r) :
    LockKept hn lib votes { s with round := r, step := st, trace := .tick ti :: s.trace } :=
  h.keep ((Adds.of_eq rfl).cons rfl (Event.isQuiet_of_vote rfl) rfl) rfl rfl rfl hr

theorem LockKept.afterPrevote {r : Int}
    (hr : s.round ≤ r) : LockKept hn lib votes (afterPrevote r s) := by
  rw [NeatPoS.afterPrevote]
  split
  · exact h
  · exact h.tick hr

/-- Giving up the lock because of a quorum for something else, in a later round than that of each
precommit for the locked block. -/
theorem LockKept.give_up
    (hadds : Adds Event.isQuiet s s') (hheight : s'.height = s.height) (hround : s'.round = s.round)
    {b : BlockID} (hq : QuorumAt hn votes s.height .prevote s.round b.value)
    (hne : TdmBlock.hashesTo lib s.lockedBlock b.hash = .ok false)
    (hlater : ∀ rs v, .signed rs v ∈ s.trace → v.height = s.height → v.type = .precommit →
      v.round ≤ s.lockedRound → v.round < s.round) : LockKept hn lib votes s' := by
  intro rs v w hv hh ht hw
  have hv' := hadds.old_precommit hv ht hw
  rw [hheight] at hh ⊢
  rw [hround]
  rcases h rs v w hv' hh ht hw with ⟨hl, hle⟩ | hr
  · refine .inr ⟨s.round, b.value, hlater rs v hv' hh ht hle, le_refl _, fun heq ↦ ?_, hq⟩
    rw [← (BlockID.value_eq_some.1 heq).1, hne] at hl
    cases hl
  · exact .inr hr

end

/-- Precommitting the locked block. -/
theorem LockKept.signs {b : BlockID} (h : LockKept hn env.lib votes s)
    (hs : Signs env .precommit b s s')
    (hl : TdmBlock.hashesTo env.lib s.lockedBlock b.hash = .ok true)
    (hle : s.round ≤ s.lockedRound) : LockKept hn env.lib votes s' := by
  obtain ⟨hheight, hround, -⟩ := hs.frame
  obtain ⟨hblock, hlocked⟩ := hs.lock_eq
  intro rs v w hv hh ht hw
  rw [hblock, hlocked, hheight, hround]
  rcases hs.mem_trace hv with hv | rfl
  · exact h rs v w hv (hh.trans hheight) ht hw
  · have hw' : b.hash = w := (BlockID.value_eq_some.1 hw).1
    exact .inl ⟨hw' ▸ hl, hle⟩

theorem lockKept_precommits (h : NodeInv hn env.lib votes s)
    (hstep : s.step.num < RoundStep.precommit.num) (hv : Precommits env s.round s s') :
    LockKept hn env.lib votes s' := by
  have hlock : LockKept hn env.lib votes s := h.lock fun hc ↦ by
    rw [hc] at hstep
    exact absurd hstep (by decide)
  -- the node has not precommitted in this round
  have hearlier : ∀ rs v, .signed rs v ∈ s.trace → v.height = s.height → v.type = .precommit →
      v.round < s.round := by
    intro rs v hv hh ht
    rcases h.order.votes rs v hv with hlt | ⟨-, hle⟩
    · exact absurd hh (ne_of_lt hlt)
    · exact lt_of_le_of_ne hle fun heq ↦
        absurd (h.order.precommitted rs v hv hh heq ht) (not_le.2 hstep)
  cases hv with
  | abstain hs => exact hlock.keep hs.quiet hs.frame.1 hs.lock_eq.1 hs.lock_eq.2 hs.frame.2.1.ge
  | relock _ _ hl hs =>
    refine LockKept.signs ?_ hs hl (le_refl s.round)
    intro rs v w hv hh ht hw
    have hv' : .signed rs v ∈ s.trace := List.mem_of_ne_of_mem (by simp) hv
    rcases hlock rs v w hv' hh ht hw with ⟨hw', -⟩ | hq
    · exact .inl ⟨hw', (hearlier rs v hv' hh ht).le⟩
    · exact .inr hq
  | lock b hb _ hp hs =>
    refine LockKept.signs ?_ hs hp (le_refl s.round)
    intro rs v w hv hh ht hw
    have hv' : .signed rs v ∈ s.trace := List.mem_of_ne_of_mem (by simp) hv
    have hlt := hearlier rs v hv' hh ht
    by_cases hb' : b.value = some w
    · rw [← (BlockID.value_eq_some.1 hb').1]
      exact .inl ⟨hp, hlt.le⟩
    · exact .inr ⟨s.round, b.value, hlt, le_refl _, hb', h.quorum hb⟩
  | unlock _ hb hl hf hs =>
    have hadds : Adds Event.isQuiet s s' := by
      have htrace := hf.lock_eq.2.2.1
      exact hs.quiet.snoc htrace (Event.isQuiet_of_vote rfl) rfl
    have hround : s'.round = s.round := hs.frame.2.1.trans hf.frame.2.1
    exact hlock.give_up hadds (hs.frame.1.trans hf.frame.1) hround (h.quorum hb) hl
      fun rs v hv hh ht _ ↦ hearlier rs v hv hh ht

/-- **Locks are kept**, as long as the node does not go back. -/
theorem lockKept_move (hadm : input.admissible env start = true)
    (hP : staysUp env input start = true) (hstart : InOrder start)
    (hin : Heard votes input) (h : NodeInv hn env.lib votes s) (hm : Move env start input s s')
    (hstep : s'.step ≠ .commit) :
    LockKept hn env.lib votes s' := by
  have hnot : ∀ {st : RoundStep} {r : Int}, (s.round < r → Ahead start input st r) →
      s.round ≤ r → s.round = r := fun hahead hr ↦ (lt_or_eq_of_le hr).resolve_left
    fun hlt ↦ hstart.not_ahead hadm (hahead hlt)
  -- the node is not in the step `commit`, since it does not leave that step
  have hearly : s.step.num < RoundStep.commit.num → s.step ≠ .commit := fun hlt hc ↦ by
    rw [hc] at hlt
    exact absurd hlt (by decide)
  cases hm with
  | upkeep _ _ _ _ _ _ _ _ l _ _ hl =>
    refine (h.lock hstep).keep ⟨l, rfl, fun e he ↦ Event.isQuiet_of_vote ?_, ?_⟩ rfl rfl rfl (le_refl _)
    · cases hl e he <;> rfl
    · rw [votesOf_eq_nil fun e he ↦ by cases hl e he <;> rfl]
      simp
  | newRound _ hr _ hcommit =>
    have hstep' : s.step ≠ .commit := fun hc ↦ by
      obtain ⟨st, _, hahead⟩ := hcommit hc
      exact hstart.not_ahead hadm hahead
    rw [ConsensusState.enterRound]
    split <;> exact (h.lock hstep').keep (.of_eq rfl) rfl rfl rfl hr
  | lower _ hr =>
    rw [staysUp, hr] at hP
    exact absurd hP (by simp)
  | propose _ hr heq ahead =>
    obtain rfl := hnot ahead hr
    exact (h.lock (hearly ((heq rfl).trans (by decide)))).keep (.of_eq rfl) rfl rfl rfl (le_refl _)
  | proposal | part | signAggr => exact (h.lock hstep).keep (.of_eq rfl) rfl rfl rfl (le_refl _)
  | received _ _ _ _ _ _ _ _ _ _ _ hvote =>
    rcases hvote with rfl | ⟨_, -, h₂, -, hv, rfl⟩
    · exact (h.lock hstep).keep (.of_eq rfl) rfl rfl rfl (le_refl _)
    · have hlock := h.lock (hearly (lt_of_le_of_lt h₂ (by decide)))
      exact (hlock.keep hv.quiet hv.frame.1 hv.lock_eq.1 hv.lock_eq.2 hv.frame.2.1.ge).afterPrevote
        hv.frame.2.1.le
  | prevote _ _ hr heq ahead hvote =>
    obtain rfl := hnot ahead hr
    have hlock := h.lock (hearly (lt_of_le_of_lt (heq rfl) (by decide)))
    split at hvote
    · exact (hlock.keep hvote.quiet hvote.frame.1 hvote.lock_eq.1 hvote.lock_eq.2
        hvote.frame.2.1.ge).afterPrevote hvote.frame.2.1.le
    · subst hvote
      exact hlock.afterPrevote (le_refl _)
  | precommit _ _ hr heq ahead hvote =>
    obtain rfl := hnot ahead hr
    exact (lockKept_precommits h (heq rfl) hvote).tick hvote.frame.2.le
  | unlock sa hsa hheight hacc htype hround _ _ hne =>
    obtain ⟨key, hsa⟩ := hsa
    have hq : QuorumAt hn votes s.height .prevote s.round sa.maj23.value := by
      rw [h.validators, ← hheight] at hacc
      have hq : QuorumAt hn votes sa.height _ _ _ := (hin.aggr sa key hsa).hasQuorum hacc
      rwa [htype, hheight, hround] at hq
    refine (h.lock hstep).give_up ((Adds.of_eq rfl).cons rfl (Event.isQuiet_of_vote rfl) rfl) rfl rfl
      hq hne fun rs v hv hh ht hle ↦ ?_
    omega
  | commit => exact absurd rfl hstep
  | finalize _ hstep' | committed _ _ _ _ hstep' => exact absurd hstep' hstep
  | sendAggr =>
    exact (h.lock hstep).keep ((Adds.of_eq rfl).cons rfl (Event.isQuiet_of_vote rfl) rfl) rfl rfl rfl
      (le_refl _)
  | newHeight _ _ hs hnew =>
    subst hs
    have hgrows := Input.admissible_height hadm hnew
    intro rs v w hv hh
    have hh' : v.height = (lastExtra env s).height + 1 := hh
    rcases h.order.votes rs v hv with hlt | ⟨heq, -⟩ <;> omega

/-! ## What a step preserves -/

theorem Move.privAddress_eq (hm : Move env start input s s') : s'.privAddress = s.privAddress := by
  rcases hm.learns_cases with ⟨_, _, -, -, -, -, rfl⟩ | hlearns
  · rfl
  · exact hlearns.privAddress

/-- The votes of a move extend the history lawfully. -/
theorem historyOk_move (hadm : input.admissible env start = true) (hstart : InOrder start)
    (hH : HistoryOk hn votes) (h : NodeInv hn env.lib votes s) {l : List Event}
    (hnew : ∀ e ∈ l, NewEvent env start input s e) (hone : (votesOf l).length ≤ 1) :
    HistoryOk hn (votesOf l ++ votes) ∧
      ∀ v ∈ votesOf l, v.validatorAddress = s.privAddress := by
  have hsigned : ∀ v ∈ votesOf l, ∃ rs, NewVote env start input s rs v ∧
      s.validators.hasAddress s.privAddress = true := by
    intro v hv
    obtain ⟨rs, hrs⟩ := mem_votesOf.1 hv
    cases hnew _ hrs with
    | talk he => exact absurd he (by simp [Event.isTalk])
    | signed hv hmem => exact ⟨rs, hv, hmem⟩
  refine ⟨?_, fun v hv ↦ ?_⟩
  · cases hvotes : votesOf l with
    | nil => exact hH
    | cons v rest =>
      rw [hvotes, List.length_cons] at hone
      obtain rfl : rest = [] := List.length_eq_zero_iff.1 (by omega)
      obtain ⟨rs, hv, hmem⟩ := hsigned v (by rw [hvotes]; exact List.mem_singleton_self v)
      have hc := castOk_of_newVote hadm hstart hH h hmem hv
      exact hH.cons h.validators hmem hv.castBy hc
  · obtain ⟨rs, hnewVote, -⟩ := hsigned v hv
    exact hnewVote.castBy.address

/-- What a node knows about the votes of others stays part of the history. -/
theorem NodeInv.learn (hvals : SameValidators valsAt env start) (hin : Heard votes input)
    (h : NodeInv hn env.lib votes s) (hm : Move env start input s s') :
    s'.validators = valsAt s'.height ∧ s'.votes.AllVotes (· ∈ votes) ∧
      s'.votes.height = s'.height ∧
      ∀ r t sa, s'.voteSignAggr.getSignAggr r t = some sa → BitsSigned votes sa := by
  rcases hm.learns_cases with ⟨validators, hvs, hs, -, hval, hvotes, rfl⟩ | hlearns
  · subst hs
    obtain ⟨hall, hheight⟩ := HeightVoteSet.allVotes_new (P := (· ∈ votes)) hvotes
    refine ⟨hvals validators hval, hall, hheight, fun r t sa hsa ↦ ?_⟩
    rw [ConsensusState.atNewHeight, HeightVoteSignAggr.getSignAggr_newHeightVoteSignAggr] at hsa
    cases hsa
  · obtain ⟨hall, hheight⟩ := hlearns.votes _ hin.vote h.held
    refine ⟨?_, hall, ?_, fun r t sa hsa ↦ ?_⟩
    · rw [hlearns.validators, hlearns.height, h.validators]
    · rw [hheight, hlearns.height, h.heldHeight]
    · rcases hlearns.aggrs r t sa hsa with hsa | hsa
      · exact h.stored r t sa hsa
      · obtain ⟨key, hkey⟩ := hsa.input
        exact hin.aggr sa key hkey

/-- What a node sends and commits is backed by the history. -/
theorem NodeInv.newEvent (h : NodeInv hn env.lib votes s) {e : Event}
    (he : NewEvent env start input s e) :
    (∀ sa, e = .signAggr sa → BitsSigned votes sa) ∧
      ∀ rs b, e = .finalizeCommit rs b →
        ∃ r, QuorumAt hn votes rs.height .precommit r (some b.hash) := by
  cases he with
  | talk he =>
    constructor
    · rintro sa rfl
      exact absurd he (by simp [Event.isTalk])
    · rintro rs b rfl
      exact absurd he (by simp [Event.isTalk])
  | finalizeCommit _ _ hb hh =>
    refine ⟨fun sa heq ↦ absurd heq (by simp), fun rs b' heq ↦ ?_⟩
    obtain ⟨rfl, rfl⟩ := Event.finalizeCommit.inj heq
    refine ⟨s.commitRound, ?_⟩
    have hq := h.quorum hb
    rwa [BlockID.value_eq_some.2 ⟨rfl, (TdmBlock.hashesTo_eq_true.1 hh).1⟩] at hq
  | signAggr _ b _ chainID signature hvs =>
    refine ⟨fun sa heq ↦ ?_, fun rs b' heq ↦ absurd heq (by simp)⟩
    rw [← Event.signAggr.inj heq, ← h.heldHeight]
    exact bitsSigned_makeSignAggr h.held h.order.round_nonneg hvs b chainID _ signature
  | _ => exact ⟨fun sa heq ↦ absurd heq (by simp), fun rs b heq ↦ absurd heq (by simp)⟩

/-- The history has grown by votes of the node. -/
structure Grows (key : Bytes) (votes votes' : List Vote) : Prop where
  sub : ∀ v ∈ votes, v ∈ votes'
  new : ∀ v ∈ votes', v ∈ votes ∨ v.validatorAddress = key

theorem Grows.trans {key : Bytes} {votes₁ votes₂ votes₃ : List Vote} (h : Grows key votes₁ votes₂)
    (h' : Grows key votes₂ votes₃) : Grows key votes₁ votes₃ :=
  ⟨fun v hv ↦ h'.sub v (h.sub v hv), fun v hv ↦ (h'.new v hv).elim (h.new v) .inr⟩

/-- **A move keeps the discipline**, and the node and the history together. -/
theorem nodeInv_move (hadm : input.admissible env start = true)
    (hP : staysUp env input start = true) (hstart : InOrder start)
    (hvals : SameValidators valsAt env start) (hin : Heard votes input) (hH : HistoryOk hn votes)
    (h : NodeInv hn env.lib votes s) (hm : Move env start input s s') :
    ∃ votes', Grows s.privAddress votes votes' ∧ HistoryOk hn votes' ∧
      NodeInv hn env.lib votes' s' := by
  obtain ⟨l, hl, hnew, hone⟩ := hm.adds
  obtain ⟨hH', hkey⟩ := historyOk_move hadm hstart hH h hnew hone
  obtain ⟨hvalidators, hheld, hheight, hstored⟩ := h.learn hvals hin hm
  have hsub : ∀ v ∈ votes, v ∈ votesOf l ++ votes := fun v hv ↦ List.mem_append_right _ hv
  have htrace : ∀ e, e ∈ s'.trace ↔ e ∈ l ∨ e ∈ s.trace := fun e ↦ by rw [hl, List.mem_append]
  refine ⟨votesOf l ++ votes, ⟨hsub, fun v hv ↦ ?_⟩, hH', ?_⟩
  · exact (List.mem_append.1 hv).symm.imp id (hkey v)
  refine
    { order := inOrder_move hadm hP hstart h.order hm
      accepted := aggrsAccepted_move h.accepted hm
      validators := hvalidators
      signed := fun rs v hv ↦ ?_
      own := fun v hv hself ↦ ?_
      held := fun r t vs hvs ↦ ⟨(hheld r t vs hvs).1,
        fun v hv ↦ ((hheld r t vs hvs).2 v hv).imp (hsub v) id⟩
      heldHeight := hheight
      stored := fun r t sa hsa ↦ (hstored r t sa hsa).mono hsub
      sent := fun sa hsa ↦ ?_
      lock := fun hstep ↦ (lockKept_move hadm hP hstart hin h hm hstep).mono hsub
      commits := fun rs b hb ↦ ?_ }
  · rcases (htrace _).1 hv with hv | hv
    · exact List.mem_append_left _ (mem_votesOf.2 ⟨rs, hv⟩)
    · exact hsub v (h.signed rs v hv)
  · rcases List.mem_append.1 hv with hv | hv
    · obtain ⟨rs, hrs⟩ := mem_votesOf.1 hv
      exact ⟨rs, (htrace _).2 (.inl hrs)⟩
    · rw [hm.privAddress_eq] at hself
      obtain ⟨rs, hrs⟩ := h.own v hv hself
      exact ⟨rs, (htrace _).2 (.inr hrs)⟩
  · rcases (htrace _).1 hsa with hsa | hsa
    · exact ((h.newEvent (hnew _ hsa)).1 sa rfl).mono hsub
    · exact (h.sent sa hsa).mono hsub
  · rcases (htrace _).1 hb with hb | hb
    · exact ((h.newEvent (hnew _ hb)).2 rs b rfl).imp fun _ hq ↦ hasQuorum_mono hsub hq
    · exact (h.commits rs b hb).imp fun _ hq ↦ hasQuorum_mono hsub hq

/-- A whole step keeps the discipline. -/
theorem nodeInv_step (hadm : input.admissible env s = true) (hP : staysUp env input s = true)
    (hvals : SameValidators valsAt env s) (hin : Heard votes input) (hH : HistoryOk hn votes)
    (h : NodeInv hn env.lib votes s) :
    (step env input s).privAddress = s.privAddress ∧
      ∃ votes', Grows s.privAddress votes votes' ∧ HistoryOk hn votes' ∧
        NodeInv hn env.lib votes' (step env input s) := by
  have hpath : ∀ s', Path env s input s s' → s'.privAddress = s.privAddress ∧
      ∃ votes', Grows s.privAddress votes votes' ∧ HistoryOk hn votes' ∧
        NodeInv hn env.lib votes' s' := by
    intro s' hs'
    induction hs' with
    | refl => exact ⟨rfl, votes, ⟨fun _ hv ↦ hv, fun _ hv ↦ .inl hv⟩, hH, h⟩
    | tail _ hm ih =>
      obtain ⟨hkey, _, hgrows₁, hH₁, h₁⟩ := ih
      obtain ⟨votes₂, hgrows₂, hH₂, h₂⟩ :=
        nodeInv_move hadm hP h.order hvals (hin.mono hgrows₁.sub) hH₁ h₁ hm
      rw [hkey] at hgrows₂
      exact ⟨hm.privAddress_eq.trans hkey, votes₂, hgrows₁.trans hgrows₂, hH₂, h₂⟩
  rw [step]
  split
  · exact hpath s .refl
  · obtain ⟨hkey, votes', hgrows, hH', h'⟩ := hpath _ (handle_path env s input)
    exact ⟨hkey, votes', hgrows, hH', h'.crash _⟩

/-! ## Networks -/

theorem nodeInv_started (h : Started lib s)
    (hvals : s.validators = valsAt s.height) : NodeInv hn lib [] s := by
  have horder := inOrder_started h
  have haccepted := (aggrsAccepted_inductive lib fun _ _ _ ↦ True).started s h
  obtain ⟨env, cs₀, validators, hvs, -, -, -, hnew, rfl⟩ := h.eq
  obtain ⟨hall, hheight⟩ := HeightVoteSet.allVotes_new hnew
  refine
    { order := horder
      accepted := haccepted
      validators := hvals
      signed := fun rs v hv ↦ absurd hv (by simp)
      own := fun v hv ↦ absurd hv (by simp)
      held := hall
      heldHeight := hheight
      stored := fun r t sa hsa ↦ ?_
      sent := fun sa hsa ↦ absurd hsa (by simp)
      lock := fun _ rs v w hv ↦ absurd hv (by simp)
      commits := fun rs b hb ↦ absurd hb (by simp) }
  rw [ConsensusState.atNewHeight, HeightVoteSignAggr.getSignAggr_newHeightVoteSignAggr] at hsa
  cases hsa

/-- All nodes of a network, and the history of their votes. -/
structure NetInv {ι : Type} (hn : ∀ h, ∀ w ∈ (valsAt h).powers, 0 ≤ w) (lib : Neatlib)
    (nodes : ι → ConsensusState) (votes : List Vote) : Prop where
  keys : ∀ i j, (nodes i).privAddress = (nodes j).privAddress → i = j
  history : HistoryOk hn votes
  node : ∀ i, NodeInv hn lib votes (nodes i)

/-- A message of a node has been signed. -/
theorem NetInv.heard {ι : Type} {nodes : ι → ConsensusState}
    (h : NetInv hn lib nodes votes) (hdel : Delivered nodes input) : Heard votes input := by
  refine ⟨fun v key hv ↦ ?_, fun sa key hsa ↦ ?_⟩
  · subst hv
    obtain ⟨i, e, he, hv⟩ := hdel rfl
    obtain ⟨rs, rfl⟩ := Event.eq_of_delivers_vote hv
    exact (h.node i).signed rs v he
  · subst hsa
    obtain ⟨i, e, he, hsa⟩ := hdel rfl
    obtain rfl := Event.eq_of_delivers_aggr hsa
    exact (h.node i).sent sa he

theorem NetReachable.netInv {ι : Type} [DecidableEq ι]
    {nodes : ι → ConsensusState} (hn : ∀ h, ∀ w ∈ (valsAt h).powers, 0 ≤ w)
    (h : NetReachable lib valsAt (fun env input cs ↦ staysUp env input cs = true) nodes) :
    ∃ votes, NetInv hn lib nodes votes := by
  induction h with
  | started hstarted hvals hkeys =>
    have hempty : HistoryOk hn [] := ⟨fun _ ↦ trivial, by simp, by simp⟩
    exact ⟨[], hkeys, hempty, fun i ↦ nodeInv_started (hstarted i) (hvals i)⟩
  | @step nodes i env input h hlib hadm hvals hdel hP ih =>
    obtain ⟨votes, hinv⟩ := ih
    subst hlib
    obtain ⟨hkey, votes', hgrows, hH', hi'⟩ :=
      nodeInv_step hadm hP hvals (hinv.heard hdel) hinv.history (hinv.node i)
    have hkeys : ∀ j, (Function.update nodes i (NeatPoS.step env input (nodes i)) j).privAddress =
        (nodes j).privAddress := by
      intro j
      by_cases hj : j = i
      · subst hj
        rw [Function.update_self, hkey]
      · rw [Function.update_of_ne hj]
    refine ⟨votes', fun j k hjk ↦ ?_, hH', fun j ↦ ?_⟩
    · rw [hkeys, hkeys] at hjk
      exact hinv.keys j k hjk
    by_cases hj : j = i
    · subst hj
      rwa [Function.update_self]
    rw [Function.update_of_ne hj]
    -- the new votes are those of another key
    refine (hinv.node j).mono hgrows.sub fun v hv ↦ (hgrows.new v hv).imp id fun hv ↦ ?_
    rw [hv]
    exact fun heq ↦ hj (hinv.keys i j heq).symm

/-- **Agreement**: in every network of honest nodes in which no node goes back to a lower round, no
two nodes commit different blocks at one height, whatever becomes of the messages. -/
theorem agreement_of_staysUp {ι : Type} [DecidableEq ι] {lib : Neatlib}
    {nodes : ι → ConsensusState} (hn : ∀ h, ∀ w ∈ (valsAt h).powers, 0 ≤ w)
    (h : NetReachable lib valsAt (fun env input cs ↦ staysUp env input cs = true) nodes) :
    Agreement nodes := by
  obtain ⟨_, hinv⟩ := h.netInv hn
  intro i j rs b rs' b' hb hb' hheight
  obtain ⟨_, hq⟩ := (hinv.node i).commits rs b hb
  obtain ⟨_, hq'⟩ := (hinv.node j).commits rs' b' hb'
  rw [← hheight] at hq'
  exact (hinv.history.lawful rs.height).agreement hq hq'

/-- Once a node has seen a majority of precommits for a block, no node signs a precommit for another
block in a later round of the height. -/
def LockedIn {ι : Type} (nodes : ι → ConsensusState) : Prop :=
  ∀ i j r b rs v, SignAggr.twoThirdsMajority ((nodes i).voteSignAggr.precommits r) = some b →
    b.hash ≠ [] → .signed rs v ∈ (nodes j).trace → v.type = .precommit →
    v.height = (nodes i).height → r < v.round → v.blockID.hash = [] ∨ v.blockID.hash = b.hash

/-- **A majority locks the network in**, as long as no node goes back to a lower round: the block can
be committed at any later time, and nothing else can get a majority. -/
theorem lockedIn_of_staysUp {ι : Type} [DecidableEq ι] {lib : Neatlib}
    {nodes : ι → ConsensusState} (hn : ∀ h, ∀ w ∈ (valsAt h).powers, 0 ≤ w)
    (h : NetReachable lib valsAt (fun env input cs ↦ staysUp env input cs = true) nodes) :
    LockedIn nodes := by
  obtain ⟨votes, hinv⟩ := h.netInv hn
  intro i j r b rs v hmaj hb hv htype hheight hr
  by_cases hnil : v.blockID.hash = []
  · exact .inl hnil
  right
  have hlawful := hinv.history.lawful (nodes i).height
  have hq := (hinv.node i).quorum hmaj
  have hcast : ⟨v.validatorIndex, .precommit, v.round, some v.blockID.hash⟩ ∈
      castsAt (nodes i).height votes := by
    refine mem_castsAt.2 ⟨v, (hinv.node j).signed rs v hv, hheight, ?_⟩
    rw [Vote.cast, htype, BlockID.value, if_neg hnil]
    rfl
  rw [BlockID.value, if_neg hb] at hq
  obtain ⟨s, hs, hpolka⟩ := hlawful.polka hcast
  exact Option.some.inj (hlawful.no_turning_back hq s.length s rfl hs v.round _ hr hpolka)

end

/-! ## An honest network that disagrees -/

/-- The heights and hashes of the blocks that a node has been about to commit. -/
def finalized (trace : List Event) : List (Nat × Bytes) :=
  trace.filterMap fun e =>
    match e with
    | .finalizeCommit rs b => some (rs.height, b.hash)
    | _ => none

theorem exists_of_mem_finalized {trace : List Event} {height : Nat} {hash : Bytes}
    (h : (height, hash) ∈ finalized trace) :
    ∃ rs b, .finalizeCommit rs b ∈ trace ∧ rs.height = height ∧ b.hash = hash := by
  obtain ⟨e, he, heq⟩ := List.mem_filterMap.1 h
  cases e with
  | finalizeCommit rs b =>
    obtain ⟨hheight, hhash⟩ := Prod.mk.inj (Option.some.inj heq)
    exact ⟨rs, b, he, hheight, hhash⟩
  | _ => cases heq

namespace SmallNet

/-- The node `[1]` proposes block 10 in round 0, and `[1]` and `[2]` commit it. -/
def oneRound : List (Member × Int × Input) :=
  Member.one.at 10 [timeout 0 .newHeight, proposal 0 10 [1], part 0 10] ++
  Member.two.at 11 [timeout 0 .newHeight, proposal 0 10 [1], part 0 10] ++
  Member.three.at 12 [timeout 0 .newHeight, proposal 0 10 [1], part 0 10] ++
  Member.one.at 13 [vote 0 .prevote (blockID 10)] ++
  Member.three.at 14 [arrives (signAggr 0 .prevote (blockID 10))] ++
  Member.one.at 15 [vote 0 .precommit (blockID 10)] ++
  Member.two.at 16 [arrives (signAggr 0 .precommit (blockID 10))] ++
  Member.one.at 17 [arrives (signAggr 0 .precommit (blockID 10))]

/-- Rounds 0 to 2.  The proposal of `[1]` for round 0 is delayed, and so is the aggregate of the
prevotes for block 20 in round 1.  In round 2, `[3]` locks and precommits block 30, and `[2]`
commits it. -/
def commitsBlock : List (Member × Int × Input) :=
  Member.one.at 10 [timeout 0 .newHeight] ++
  Member.two.at 20 (timeout 0 .newHeight :: skipRound 0 ++ [proposal 1 20 [2], part 1 20]) ++
  Member.three.at 25 (timeout 0 .newHeight :: skipRound 0 ++ [proposal 1 20 [2], part 1 20]) ++
  Member.two.at 26 [vote 1 .prevote (blockID 20)] ++
  Member.three.at 30
    [timeout 1 .prevoteWait, timeout 1 .precommitWait, proposal 2 30 [3], part 2 30,
      vote 2 .prevote (blockID 30), arrives (signAggr 2 .prevote (blockID 30)),
      vote 2 .precommit (blockID 30)] ++
  Member.two.at 35
    [timeout 1 .prevoteWait, timeout 1 .precommitWait, proposal 2 30 [3], part 2 30,
      arrives (signAggr 2 .precommit (blockID 30))]

/-- The delayed proposal sends `[3]` from round 3 back to round 0.  The delayed aggregate unlocks it
in round 1, and in a second round 2 it proposes, locks and precommits block 40, which `[1]`
commits. -/
def commitsAnother : List (Member × Int × Input) :=
  Member.three.at 40
    ([timeout 2 .precommitWait, proposal 0 10 [1]] ++ skipRound 0 ++
      [arrives (signAggr 1 .prevote (blockID 20))] ++ skipRound 1 ++
      [polProposal 2 40 [3] 1 (blockID 20), part 2 40, vote 2 .prevote (blockID 40),
        arrives (signAggr 2 .prevote (blockID 40)), vote 2 .precommit (blockID 40)]) ++
  Member.one.at 45
    (skipRound 0 ++ skipRound 1 ++ [polProposal 2 40 [3] 1 (blockID 20), part 2 40,
      arrives (signAggr 2 .precommit (blockID 40))])

end SmallNet

open SmallNet in
theorem agreement_of_oneRound :
    finalized (Trio.start.run oneRound).one.trace = [(5, (blockID 10).hash)] ∧
      finalized (Trio.start.run oneRound).two.trace = [(5, (blockID 10).hash)] ∧
      Agreement (Trio.start.run oneRound).get :=
  ⟨by decide +kernel, by decide +kernel, agreement_of_staysUp (fun _ ↦ by decide)
    (Trio.netReachable_run (fun _ _ _ h ↦ h) oneRound (Trio.netReachable_start _)
      (by decide +kernel))⟩

open SmallNet in
theorem lockedIn_of_oneRound :
    SignAggr.twoThirdsMajority ((Trio.start.run oneRound).one.voteSignAggr.precommits 0) =
        some (blockID 10) ∧ LockedIn (Trio.start.run oneRound).get :=
  ⟨by decide +kernel, lockedIn_of_staysUp (fun _ ↦ by decide)
    (Trio.netReachable_run (fun _ _ _ h ↦ h) oneRound (Trio.netReachable_start _)
      (by decide +kernel))⟩

open SmallNet in
/-- **Honest nodes that disagree.**  Every message in this run has been sent by a node that runs the
state machine. -/
theorem disagreement_in_lowerRound :
    NetReachable lib (fun _ => validators) (fun _ _ _ ↦ True)
        (Trio.start.run (commitsBlock ++ commitsAnother)).get ∧
      ¬ Agreement (Trio.start.run (commitsBlock ++ commitsAnother)).get := by
  constructor
  · exact Trio.netReachable_run (p := fun _ _ _ => true) (fun _ _ _ _ ↦ trivial) _
      (Trio.netReachable_start _) (by decide +kernel)
  intro h
  have hone : (5, (blockID 40).hash) ∈
      finalized (Trio.start.run (commitsBlock ++ commitsAnother)).one.trace := by decide +kernel
  have htwo : (5, (blockID 30).hash) ∈
      finalized (Trio.start.run (commitsBlock ++ commitsAnother)).two.trace := by decide +kernel
  obtain ⟨rs, b, hb, hheight, hhash⟩ := exists_of_mem_finalized hone
  obtain ⟨rs', b', hb', hheight', hhash'⟩ := exists_of_mem_finalized htwo
  have heq := h .one .two rs b rs' b' hb hb' (hheight.trans hheight'.symm)
  rw [hhash, hhash'] at heq
  exact absurd heq (by decide +kernel)

end NeatPoS
