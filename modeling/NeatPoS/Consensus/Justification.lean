import NeatPoS.Consensus.Effects

/-!
# Precommits are justified

A precommit for a block should be cast while the node holds the proof that it may: an aggregate of
prevotes for that block, in the round of the vote.  The code looks the aggregate up under the round
that `enterPrecommit` is called for and signs the vote for the round the node is in, and these are
the same unless a timeout is handled that was scheduled in a round the node has since gone back
from.  If no such timeout of the step `prevoteWait` is handled, every precommit is justified.

That what is stored was accepted, and is stored under its own round and type, holds in every run
(`aggrsAccepted_inductive`).
-/

set_option autoImplicit false

namespace NeatPoS

open Stateful Relation

/-! ## Stored aggregates have been accepted -/

/-- Every stored aggregate passes the check of `setMaj23SignAggr`, is of the node's height, and
stands under its own round and type. -/
def AggrsAccepted (lib : Neatlib) (s : ConsensusState) : Prop :=
  ∀ r t sa, s.voteSignAggr.getSignAggr r t = some sa →
    sa.round = r ∧ sa.type = t ∧ sa.height = s.height ∧
      signAggrAccepted lib s.validators sa = true

theorem aggrsAccepted_atNewHeight (lib : Neatlib) (env : Env) (validators : ValidatorSet)
    (votes : HeightVoteSet) (s : ConsensusState) :
    AggrsAccepted lib (s.atNewHeight env validators votes) := by
  intro r t sa hsa
  rw [ConsensusState.atNewHeight, HeightVoteSignAggr.getSignAggr_newHeightVoteSignAggr] at hsa
  cases hsa

theorem aggrsAccepted_move {env : Env} {start s s' : ConsensusState} {input : Input}
    (h : AggrsAccepted env.lib s) (hm : Move env start input s s') : AggrsAccepted env.lib s' := by
  rcases hm.learns_cases with ⟨validators, votes, -, -, -, -, rfl⟩ | hlearns
  · exact aggrsAccepted_atNewHeight env.lib env validators votes s
  intro r t sa hsa
  rw [hlearns.height, hlearns.validators]
  rcases hlearns.aggrs r t sa hsa with hsa | hsa
  · exact h r t sa hsa
  · exact ⟨hsa.round.symm, hsa.type.symm, hsa.height, hsa.accepted⟩

theorem aggrsAccepted_inductive (lib : Neatlib) (P : Env → Input → ConsensusState → Prop) :
    Inductive lib P (AggrsAccepted lib) where
  started cs h := by
    obtain ⟨env, cs₀, validators, votes, -, -, -, -, rfl⟩ := h.eq
    exact aggrsAccepted_atNewHeight lib env validators votes cs₀
  crashed _ _ h := h
  move _ _ _ _ _ hlib _ _ _ hs hm := hlib ▸ aggrsAccepted_move (hlib ▸ hs) hm

/-! ## Precommits -/

/-- The node stores an accepted aggregate of prevotes for the height, the round and the block of
the vote. -/
def Justified (lib : Neatlib) (rs : RoundState) (v : Vote) : Prop :=
  ∃ sa, rs.voteSignAggr.getSignAggr v.round .prevote = some sa ∧ sa.height = v.height ∧
    sa.round = v.round ∧ sa.type = .prevote ∧ signAggrAccepted lib rs.validators sa = true ∧
    SignAggr.twoThirdsMajority (some sa) = some v.blockID

/-- Every precommit for a block was justified when it was signed. -/
def PrecommitsJustified (lib : Neatlib) (trace : List Event) : Prop :=
  ∀ rs v, .signed rs v ∈ trace → v.type = .precommit → v.blockID ≠ .zero → Justified lib rs v

/-- The input is no timeout of the step `prevoteWait` for a later round than the node's. -/
def noEarlyPrevoteWait (_ : Env) (input : Input) (cs : ConsensusState) : Bool :=
  match input with
  | .timeout ti => !(ti.step == .prevoteWait && ti.height == cs.height && cs.round < ti.round)
  | _ => true

theorem not_ahead_of_noEarlyPrevoteWait {env : Env} {start : ConsensusState} {input : Input}
    {r : Int} (h : noEarlyPrevoteWait env input start = true) :
    ¬ Ahead start input .prevoteWait r := by
  rintro ⟨rfl, hlt⟩
  simp [noEarlyPrevoteWait, hlt] at h

theorem justified_move {env : Env} {start s s' : ConsensusState} {input : Input}
    (hP : noEarlyPrevoteWait env input start = true) (hacc : AggrsAccepted env.lib s)
    (h : PrecommitsJustified env.lib s.trace) (hm : Move env start input s s') :
    PrecommitsJustified env.lib s'.trace := by
  intro rs v hv htype hne
  rcases hm.signed_cases hv with hv | hnew
  · exact h rs v hv htype hne
  cases hnew with
  | prevote => exact absurd htype (by simp [signVote])
  | abstain => exact absurd rfl hne
  | precommit _ r b hb hs₀ hr _ ahead =>
    have hround : s.round = r := (lt_or_eq_of_le hr).resolve_left fun hlt ↦
      not_ahead_of_noEarlyPrevoteWait hP (ahead hlt)
    obtain ⟨sa, hsa, hmaj, hzero⟩ := SignAggr.twoThirdsMajority_eq_some.1 hb
    obtain ⟨h₁, h₂, h₃, h₄⟩ := hacc r .prevote sa hsa
    subst hround
    -- locking changes neither the aggregates nor where the node stands
    have hjust : Justified env.lib s.toRoundState (signVote env s .precommit b) :=
      ⟨sa, hsa, h₃, h₁, h₂, h₄, SignAggr.twoThirdsMajority_eq_some.2 ⟨sa, rfl, hmaj, hzero⟩⟩
    rcases hs₀ with ⟨rfl, -⟩ | ⟨rfl, -⟩
    · exact hjust
    · exact hjust

theorem justified_inductive (lib : Neatlib) :
    Inductive lib (fun env input cs ↦ noEarlyPrevoteWait env input cs = true)
      (fun s ↦ AggrsAccepted lib s ∧ PrecommitsJustified lib s.trace) where
  started cs h := by
    refine ⟨(aggrsAccepted_inductive lib fun _ _ _ ↦ True).started cs h, fun rs v hv ↦ ?_⟩
    obtain ⟨env, _, _, _, -, -, -, -, rfl⟩ := h.eq
    simp at hv
  crashed _ _ h := h
  move _ _ _ _ _ hlib _ hP _ hs hm := by
    subst hlib
    exact ⟨aggrsAccepted_move hs.1 hm, justified_move hP hs.1 hs.2 hm⟩

/-- **Precommits are justified** in every run in which no timeout of the step `prevoteWait` is
handled in an earlier round than its own. -/
theorem precommitsJustified_of_noEarlyPrevoteWait {lib : Neatlib} {cs : ConsensusState}
    (h : Reachable lib (fun env input cs ↦ noEarlyPrevoteWait env input cs = true) cs) :
    PrecommitsJustified lib cs.trace :=
  ((justified_inductive lib).reachable h).2

open SmallNet in
theorem precommitsJustified_of_locks :
    (run (node [2]) locks).lockedRound = 2 ∧
      PrecommitsJustified lib (run (node [2]) locks).trace :=
  ⟨by decide +kernel, precommitsJustified_of_noEarlyPrevoteWait
    (reachable_run (fun _ _ _ h ↦ h) locks (.started (started_node [2])) (by decide +kernel))⟩

/-- A precommit for a block without any aggregate of prevotes of its round. -/
def Event.unjustified : Event → Bool
  | .signed rs v =>
    v.type == .precommit && v.blockID != .zero &&
      (rs.voteSignAggr.getSignAggr v.round .prevote).isNone
  | _ => false

theorem PrecommitsJustified.not_unjustified {lib : Neatlib} {trace : List Event}
    (h : PrecommitsJustified lib trace) : trace.any Event.unjustified = false := by
  rw [List.any_eq_false]
  intro e he hun
  cases e with
  | signed rs v =>
    simp only [Event.unjustified, Bool.and_eq_true, beq_iff_eq, bne_iff_ne,
      Option.isNone_iff_eq_none] at hun
    obtain ⟨_, hsa, -⟩ := h rs v he hun.1.1 hun.1.2
    rw [hun.2] at hsa
    cases hsa
  | _ => exact absurd hun (by simp [Event.unjustified])

/-- A block is locked in round 3, and the node moves on to round 4.  The timeout of the step
`prevoteWait` of round 3 has fired but waits in the queue; meanwhile the proposal of round 2
arrives, and the prevotes of round 3 once more. -/
def SmallNet.firesLate : List (Int × Input) :=
  timeout 0 .newHeight :: skipRound 0 ++ skipRound 1 ++ skipRound 2 ++
    [proposal 3 7 [1], part 3 7, arrives (signAggr 3 .prevote (blockID 7)),
      timeout 3 .precommitWait, proposal 2 8 [3], arrives (signAggr 3 .prevote (blockID 7)),
      timeout 3 .prevoteWait]

open SmallNet in
/-- **A precommit can be unjustified**: back in round 2, the node signs a precommit for round 2
because of prevotes of round 3. -/
theorem precommit_unjustified_after_lowerRound :
    ∃ cs, Reachable lib (fun _ _ _ ↦ True) cs ∧ ¬ PrecommitsJustified lib cs.trace := by
  have hallowed : allowed (fun _ _ _ ↦ true) (node [2]) firesLate = true := by decide +kernel
  have hun : (run (node [2]) firesLate).trace.any Event.unjustified = true := by decide +kernel
  refine ⟨_, reachable_run (fun _ _ _ _ ↦ trivial) _ (.started (started_node [2])) hallowed,
    fun h ↦ ?_⟩
  rw [h.not_unjustified] at hun
  cases hun

end NeatPoS
