import NeatPoS.Consensus.Effects

/-!
# One vote a step

A node signs at most one prevote and at most one precommit a round.  Nothing in `signAddVote` looks
at what was signed before; that there is only one vote follows from where the node stands.  It
precommits before the step `precommit` and stands behind it afterwards.  It prevotes when the
proposal is complete, which happens once: either the last part arrives, or the node enters the
steps `propose` and `prevote` with the proposal already complete.

All of this is about one stay in a round.  A node that `enterLowerRound` takes back passes through
rounds a second time and votes again, and timeouts of the rounds it has left behind make it vote
in its own round for majorities of other rounds.  So the result is about runs in which that never
happens (`staysUp`), and there is a run in which it happens and the node signs two prevotes for
one round.
-/

set_option autoImplicit false

namespace NeatPoS

open Stateful Relation

variable {env : Env} {s s' start : ConsensusState} {r : Int} {input : Input}

/-- No two votes of one height, round and type are for different blocks. -/
def NoDoubleSign (trace : List Event) : Prop :=
  ∀ rs v rs' v', .signed rs v ∈ trace → .signed rs' v' ∈ trace → v.height = v'.height →
    v.round = v'.round → v.type = v'.type → v.blockID = v'.blockID

/-- The step does not take the node back to a lower round. -/
def staysUp (env : Env) (input : Input) (cs : ConsensusState) : Bool :=
  (lowerRound env cs input).isNone

/-! ## What a move adds to the trace -/

/-- The event is no vote but the given one, if any, cast in the given round, and schedules no
timeout of a later round. -/
def Event.adds (height : Nat) (r : Int) (vote : Option (VoteType × BlockID)) : Event → Prop
  | .tick ti => ti.height = height ∧ ti.round ≤ r
  | .signed _ v => v.height = height ∧ v.round = r ∧ vote = some (v.type, v.blockID)
  | _ => True

theorem Signs.adds_vote {type : VoteType} {b : BlockID} (h : Signs env type b s s') :
    Adds (Event.adds s.height s.round (some (type, b))) s s' := by
  refine h.adds (fun e he ↦ ?_) fun _ ↦ ⟨rfl, rfl, rfl⟩
  cases e <;> simp_all [Event.isTalk, Event.adds]

/-- What prevoting leaves as it was. -/
theorem Prevotes.proposal_eq (h : Prevotes env s s') :
    s'.proposal = s.proposal ∧ s'.proposalBlockParts = s.proposalBlockParts := by
  cases h with
  | none => exact ⟨rfl, rfl⟩
  | vote _ _ _ h => cases h <;> exact ⟨rfl, rfl⟩

theorem Prevotes.adds_vote (h : Prevotes env s s') :
    ∃ b, Adds (Event.adds s.height s.round (some (.prevote, b))) s s' := by
  cases h with
  | none => exact ⟨.zero, .of_eq rfl⟩
  | vote _ b _ h => exact ⟨b, h.adds_vote⟩

theorem Signs.proposal_eq {type : VoteType} {b : BlockID}
    (h : Signs env type b s s') : s'.proposal = s.proposal := by
  cases h <;> rfl

theorem Precommits.proposal_eq (h : Precommits env r s s') : s'.proposal = s.proposal := by
  cases h with
  | abstain h | relock _ _ _ h | lock _ _ _ _ h => exact h.proposal_eq
  | unlock _ _ _ hf h => cases hf <;> exact h.proposal_eq

theorem Precommits.adds_vote (h : Precommits env r s s') :
    ∃ b, Adds (Event.adds s.height s.round (some (.precommit, b))) s s' := by
  -- the decision about the lock is one more event, before the vote
  cases h with
  | abstain h => exact ⟨.zero, h.adds_vote⟩
  | relock b _ _ h | lock b _ _ _ h => exact ⟨b, h.adds_vote.snoc rfl trivial rfl⟩
  | unlock _ _ _ hf h => cases hf <;> exact ⟨.zero, h.adds_vote.snoc rfl trivial rfl⟩

/-! ## Where a node stands -/

/-- All parts of the proposal are there. -/
def ConsensusState.PartsComplete (s : ConsensusState) : Prop :=
  ∃ ps, s.proposalBlockParts = some ps ∧ ps.isComplete = true

/-- Where a node stands once it has prevoted in its round. -/
structure PastPrevote (s : ConsensusState) : Prop where
  proposal : s.proposal ≠ none
  step : RoundStep.prevoteWait.num ≤ s.step.num
  complete : s.step.num < RoundStep.precommit.num → s.PartsComplete

/-- Before the step `precommit`, the parts are those of the proposal, and the block is made of
them. -/
structure EarlyParts (s : ConsensusState) : Prop where
  none : s.proposal = none → s.proposalBlockParts = none ∧ s.proposalBlock = none
  complete : s.proposalBlock ≠ Option.none → s.PartsComplete

/-- The node has moved forward only, and has signed one vote of each type a round. -/
structure InOrder (s : ConsensusState) : Prop where
  round_nonneg : 0 ≤ s.round
  ticks : ∀ ti, .tick ti ∈ s.trace →
    ti.height < s.height ∨ ti.height = s.height ∧ ti.round ≤ s.round
  votes : ∀ rs v, .signed rs v ∈ s.trace →
    v.height < s.height ∨ v.height = s.height ∧ v.round ≤ s.round
  prevoted : ∀ rs v, .signed rs v ∈ s.trace → v.height = s.height → v.round = s.round →
    v.type = .prevote → PastPrevote s
  precommitted : ∀ rs v, .signed rs v ∈ s.trace → v.height = s.height → v.round = s.round →
    v.type = .precommit → RoundStep.precommit.num ≤ s.step.num
  early : s.step.num < RoundStep.precommit.num → EarlyParts s
  once : NoDoubleSign s.trace

/-- **How a node stays in order.**  It may go on to a later round.  Events may be added, and among
them votes of one type and for one block, in a round that has no vote of the type. -/
theorem InOrder.extend (h : InOrder s) (vote : Option (VoteType × BlockID))
    (hadds : Adds (Event.adds s'.height s'.round vote) s s') (hheight : s'.height = s.height)
    (hround : s.round ≤ s'.round)
    (hfresh : ∀ x ∈ vote, ∀ rs v, .signed rs v ∈ s.trace → v.height = s.height →
      v.round = s'.round → v.type ≠ x.1)
    (hprevote : s.round = s'.round → PastPrevote s → PastPrevote s')
    (hprevoted : ∀ x ∈ vote, x.1 = .prevote → PastPrevote s')
    (hprecommit : s.round = s'.round → RoundStep.precommit.num ≤ s.step.num →
      RoundStep.precommit.num ≤ s'.step.num)
    (hprecommitted : ∀ x ∈ vote, x.1 = .precommit → RoundStep.precommit.num ≤ s'.step.num)
    (hearly : s'.step.num < RoundStep.precommit.num → EarlyParts s') : InOrder s' := by
  obtain ⟨l, htrace, hl, -⟩ := hadds
  have hmem : ∀ {e : Event}, e ∈ s'.trace → e ∈ l ∨ e ∈ s.trace := fun he ↦
    List.mem_append.1 (htrace ▸ he)
  -- a vote of the new round that is old was cast in the old round
  have hold : ∀ {rs : RoundState} {v : Vote}, .signed rs v ∈ s.trace → v.height = s'.height →
      v.round = s'.round → v.height = s.height ∧ v.round = s.round ∧ s.round = s'.round := by
    intro rs v hv hh hr
    rcases h.votes rs v hv with hlt | ⟨heq, hle⟩
    · omega
    · exact ⟨heq, by omega, by omega⟩
  refine ⟨h.round_nonneg.trans hround, ?_, ?_, ?_, ?_, hearly, ?_⟩
  · intro ti hti
    rcases hmem hti with hti | hti
    · exact .inr (hl _ hti)
    · rw [hheight]
      exact (h.ticks ti hti).imp id fun ⟨hh, hr⟩ ↦ ⟨hh, hr.trans hround⟩
  · intro rs v hv
    rcases hmem hv with hv | hv
    · exact .inr ⟨(hl _ hv).1, (hl _ hv).2.1.le⟩
    · rw [hheight]
      exact (h.votes rs v hv).imp id fun ⟨hh, hr⟩ ↦ ⟨hh, hr.trans hround⟩
  · intro rs v hv hh hr ht
    rcases hmem hv with hv | hv
    · exact hprevoted _ (hl _ hv).2.2 ht
    · obtain ⟨h₁, h₂, h₃⟩ := hold hv hh hr
      exact hprevote h₃ (h.prevoted rs v hv h₁ h₂ ht)
  · intro rs v hv hh hr ht
    rcases hmem hv with hv | hv
    · exact hprecommitted _ (hl _ hv).2.2 ht
    · obtain ⟨h₁, h₂, h₃⟩ := hold hv hh hr
      exact hprecommit h₃ (h.precommitted rs v hv h₁ h₂ ht)
  · intro rs v rs' v' hv hv' hh hr ht
    rcases hmem hv with hv | hv <;> rcases hmem hv' with hv' | hv'
    · exact congrArg Prod.snd (Option.some.inj ((hl _ hv).2.2.symm.trans (hl _ hv').2.2))
    · exact absurd ht.symm (hfresh _ (hl _ hv).2.2 rs' v' hv'
        (by rw [← hh, (hl _ hv).1, hheight]) (by rw [← hr, (hl _ hv).2.1]))
    · exact absurd ht (hfresh _ (hl _ hv').2.2 rs v hv
        (by rw [hh, (hl _ hv').1, hheight]) (by rw [hr, (hl _ hv').2.1]))
    · exact h.once rs v rs' v' hv hv' hh hr ht

/-- The same without new votes. -/
theorem InOrder.quiet (h : InOrder s) (hadds : Adds (Event.adds s'.height s'.round none) s s')
    (hheight : s'.height = s.height) (hround : s.round ≤ s'.round)
    (hprevote : s.round = s'.round → PastPrevote s → PastPrevote s')
    (hprecommit : s.round = s'.round → RoundStep.precommit.num ≤ s.step.num →
      RoundStep.precommit.num ≤ s'.step.num)
    (hearly : s'.step.num < RoundStep.precommit.num → EarlyParts s') : InOrder s' :=
  h.extend none hadds hheight hround nofun hprevote nofun hprecommit nofun hearly

/-- The same for a move that leaves the round, the step and the proposal alone. -/
theorem InOrder.stay (h : InOrder s) (hadds : Adds (Event.adds s'.height s'.round none) s s')
    (hheight : s'.height = s.height) (hround : s'.round = s.round) (hstep : s'.step = s.step)
    (hproposal : s'.proposal = s.proposal) (hparts : s'.proposalBlockParts = s.proposalBlockParts)
    (hblock : s.step.num < RoundStep.precommit.num → s'.proposalBlock = s.proposalBlock) :
    InOrder s' := by
  have hcomplete : s.PartsComplete → s'.PartsComplete :=
    fun ⟨ps, h₁, h₂⟩ ↦ ⟨ps, hparts.trans h₁, h₂⟩
  refine h.quiet hadds hheight hround.ge ?_ ?_ ?_
  · intro _ hp
    refine ⟨hproposal ▸ hp.proposal, hstep ▸ hp.step, fun h7 ↦ hcomplete (hp.complete ?_)⟩
    rwa [← hstep]
  · rw [hstep]
    exact fun _ h ↦ h
  · rw [hstep]
    intro h7
    have hearly := h.early h7
    refine ⟨fun hnone ↦ ?_, fun hne ↦ hcomplete (hearly.complete ?_)⟩
    · rw [hparts, hblock h7]
      exact hearly.none (hproposal ▸ hnone)
    · rwa [← hblock h7]

/-- A part is still missing as long as one can be added. -/
theorem ConsensusState.not_partsComplete {ps ps' : PartSet} {part : Part} {verify : Bool}
    {err : Option PartSetError} (hps : s.proposalBlockParts = some ps)
    (hadd : ps.addPart env.lib part verify = .ok (ps', true, err)) : ¬ s.PartsComplete := by
  rintro ⟨ps₀, h₀, hc⟩
  rw [hps] at h₀
  rw [← Option.some.inj h₀, (PartSet.addPart_eq_added hadd).2] at hc
  cases hc

/-- Timeouts of later rounds have not been scheduled. -/
theorem InOrder.not_ahead {st : RoundStep}
    (h : InOrder start) (hadm : input.admissible env start = true) :
    ¬ Ahead start input st r := by
  intro hahead
  rcases h.ticks _ (hahead.tick_mem hadm) with hlt | ⟨-, hle⟩
  · exact absurd hlt (lt_irrefl _)
  · exact absurd hahead.2 (not_lt.2 hle)

theorem inOrder_newRound (h : InOrder s) (hr : s.round ≤ r)
    (heq : s.round = r → s.step = .newHeight) : InOrder (s.enterRound r) := by
  -- a node that has voted in its round is beyond the step `newHeight`
  have hprevote : s.round = r → PastPrevote s → False := fun h₁ h₂ ↦
    absurd h₂.step (by rw [heq h₁]; decide)
  have hprecommit : s.round = r → RoundStep.precommit.num ≤ s.step.num → False := fun h₁ h₂ ↦
    absurd h₂ (by rw [heq h₁]; decide)
  rw [ConsensusState.enterRound]
  split
  · exact h.quiet (.of_eq rfl) rfl hr (fun h₁ h₂ ↦ (hprevote h₁ h₂).elim)
      (fun h₁ h₂ ↦ (hprecommit h₁ h₂).elim) fun _ ↦ ⟨fun _ ↦ ⟨rfl, rfl⟩, fun hne ↦ absurd rfl hne⟩
  rename_i hzero
  -- round 0 is entered from the step `newHeight` only, and the early proposal is kept
  have hr0 : s.round = r := by
    have h0 : r = 0 := by simpa using hzero
    have := h.round_nonneg
    omega
  have hearly := h.early (by rw [heq hr0]; decide)
  exact h.quiet (.of_eq rfl) rfl hr (fun h₁ h₂ ↦ (hprevote h₁ h₂).elim)
    (fun h₁ h₂ ↦ (hprecommit h₁ h₂).elim) fun _ ↦ ⟨hearly.none, hearly.complete⟩

/-- Prevoting in the node's round, for the first time there. -/
theorem inOrder_prevote {s₀ s₁ : ConsensusState} (h : InOrder s)
    (hv : Prevotes env s₀ s₁) (hfresh : ¬ PastPrevote s)
    (hstep : s.step.num < RoundStep.precommit.num)
    (hs₀ : s₀.height = s.height ∧ s₀.round = s.round ∧ s₀.step = s.step ∧ s₀.trace = s.trace ∧
      s₀.proposal = s.proposal) (hproposal : s.proposal ≠ none) (hcomplete : s₀.PartsComplete) :
    InOrder (afterPrevote s.round s₁) := by
  obtain ⟨hh₀, hr₀, -, ht₀, hp₀⟩ := hs₀
  obtain ⟨hh₁, hr₁, -⟩ := hv.frame
  obtain ⟨hp₁, hparts₁⟩ := hv.proposal_eq
  obtain ⟨b, l, hl, hadds, hone⟩ := hv.adds_vote
  rw [hh₀, hr₀] at hadds
  rw [ht₀] at hl
  have hvote : Adds (Event.adds s.height s.round (some (.prevote, b))) s s₁ := ⟨l, hl, hadds, hone⟩
  have hcomplete₁ : ∀ {s' : ConsensusState}, s'.proposalBlockParts = s₁.proposalBlockParts →
      s'.PartsComplete := by
    intro s' hs'
    obtain ⟨ps, hps, hc⟩ := hcomplete
    exact ⟨ps, by rw [hs', hparts₁, hps], hc⟩
  have hfresh' : ∀ x ∈ some (VoteType.prevote, b), ∀ rs v, .signed rs v ∈ s.trace →
      v.height = s.height → v.round = s.round → v.type ≠ x.1 := by
    rintro _ ⟨⟩ rs v hv h₁ h₂ h₃
    exact hfresh (h.prevoted rs v hv h₁ h₂ h₃)
  have hprecommit : ¬ RoundStep.precommit.num ≤ s.step.num := by omega
  have hearly : ∀ {s' : ConsensusState}, s'.proposal = s₁.proposal →
      s'.proposalBlockParts = s₁.proposalBlockParts → EarlyParts s' := fun hp hparts ↦
    ⟨fun hn ↦ absurd (((hp₀.symm.trans hp₁.symm).trans hp.symm).trans hn) hproposal,
      fun _ ↦ hcomplete₁ hparts⟩
  rcases afterPrevote_cases s.round s₁ with ⟨he, -, hwait⟩ | he
  · rw [he]
    have hpast : PastPrevote s₁ :=
      ⟨by rw [hp₁, hp₀]; exact hproposal, hwait, fun _ ↦ hcomplete₁ rfl⟩
    rw [← hr₀, ← hr₁] at hfresh'
    refine h.extend (some (.prevote, b)) ?_ (hh₁.trans hh₀) (by rw [hr₁, hr₀]) hfresh'
      (fun _ _ ↦ hpast) (fun _ _ _ ↦ hpast) (fun _ hc ↦ absurd hc hprecommit) (by simp)
      fun _ ↦ hearly rfl rfl
    rw [hh₁, hh₀, hr₁, hr₀]
    exact hvote
  · rw [he]
    refine h.extend (some (.prevote, b)) ?_ (hh₁.trans hh₀) (le_refl _) hfresh'
      (fun _ hc ↦ absurd hc hfresh) (fun _ _ _ ↦ ?_) (fun _ hc ↦ absurd hc hprecommit) (by simp)
      fun _ ↦ hearly rfl rfl
    · simp only [hh₁, hh₀]
      exact hvote.cons rfl ⟨rfl, le_refl _⟩ rfl
    · exact ⟨by simp only [hp₁, hp₀]; exact hproposal, le_refl _, fun _ ↦ hcomplete₁ rfl⟩

/-- Precommitting, for the first time in the node's round. -/
theorem inOrder_precommit {s₁ : ConsensusState} (h : InOrder s)
    (hstep : s.step.num < RoundStep.precommit.num) (hv : Precommits env s.round s s₁) :
    InOrder { s₁ with
      round := s.round, step := .precommitWait
      trace := .tick ⟨s₁.height, s.round, .precommitWait⟩ :: s₁.trace } := by
  obtain ⟨b, hvote⟩ := hv.adds_vote
  have hlate : RoundStep.precommit.num ≤ RoundStep.precommitWait.num := by decide
  refine h.extend (some (.precommit, b)) ?_ hv.frame.1 (le_refl _) ?_ (fun _ hp ↦ ?_)
    (by simp) (fun _ _ ↦ hlate) (fun _ _ _ ↦ hlate) fun hlt ↦ absurd hlt (not_lt.2 hlate)
  · simp only [hv.frame.1]
    exact hvote.cons rfl ⟨rfl, le_refl _⟩ rfl
  · rintro _ ⟨⟩ rs v hv' hh hround ht
    exact absurd (h.precommitted rs v hv' hh hround ht) (not_le.2 hstep)
  · exact ⟨by simp only [hv.proposal_eq]; exact hp.proposal, (by decide :
      RoundStep.prevoteWait.num ≤ RoundStep.precommitWait.num),
      fun hlt ↦ absurd hlt (not_lt.2 hlate)⟩

/-- The votes and timeouts of a trace are all of earlier heights than the next one. -/
theorem inOrder_newHeight {validators : ValidatorSet} {votes : HeightVoteSet} (h : InOrder s)
    (hgrows : s.height ≤ (lastExtra env s).height) :
    InOrder (s.atNewHeight env validators votes) := by
  have hlt : ∀ {n : Nat} {r : Int}, n < s.height ∨ n = s.height ∧ r ≤ s.round →
      n < (lastExtra env s).height + 1 := fun hn ↦ by omega
  refine ⟨le_refl 0, fun ti hti ↦ .inl (hlt (h.ticks ti hti)),
    fun rs v hv ↦ .inl (hlt (h.votes rs v hv)), fun rs v hv hh ↦ ?_, fun rs v hv hh ↦ ?_,
    fun _ ↦ ⟨fun _ ↦ ⟨rfl, rfl⟩, fun hne ↦ absurd rfl hne⟩, h.once⟩
  · exact absurd hh (ne_of_lt (hlt (h.votes rs v hv)))
  · exact absurd hh (ne_of_lt (hlt (h.votes rs v hv)))

theorem inOrder_move
    (hadm : input.admissible env start = true) (hP : staysUp env input start = true)
    (hstart : InOrder start) (h : InOrder s) (hm : Move env start input s s') : InOrder s' := by
  have hnot : ∀ {st : RoundStep} {r : Int}, (s.round < r → Ahead start input st r) →
      s.round ≤ r → s.round = r := fun hahead hr ↦ (lt_or_eq_of_le hr).resolve_left
    fun hlt ↦ hstart.not_ahead hadm (hahead hlt)
  cases hm with
  | upkeep _ _ _ _ _ _ _ _ _ _ _ hl =>
    refine h.stay (.of_chatter rfl hl fun e he ↦ ?_) rfl rfl rfl rfl rfl fun _ ↦ rfl
    cases he with
    | internal | vote2Proposer => trivial
    | tick _ hheight hround hahead => exact ⟨hheight, (hnot hahead hround).ge⟩
  | newRound _ hr heq => exact inOrder_newRound h hr heq
  | lower _ hr =>
    rw [staysUp, hr] at hP
    exact absurd hP (by simp)
  | propose _ hr heq ahead =>
    obtain rfl := hnot ahead hr
    have h4 : ∀ {n : Nat}, RoundStep.propose.num ≤ n → ¬ n ≤ s.step.num := fun hn hc ↦
      absurd (heq rfl) (by omega)
    refine h.quiet (.of_eq rfl) rfl (le_refl _)
      (fun _ hp ↦ absurd hp.step (h4 (by decide))) (fun _ hp ↦ absurd hp (h4 (by decide)))
      fun _ ↦ ?_
    have hearly := h.early (not_le.1 (h4 (by decide)))
    exact ⟨hearly.none, hearly.complete⟩
  | proposal _ _ _ _ _ hnone =>
    refine h.quiet (.of_eq rfl) rfl (le_refl _)
      (fun _ hp ↦ absurd hnone hp.proposal) (fun _ hp ↦ hp) fun h7 ↦ ⟨fun hn ↦ absurd hn (by simp),
        fun hne ↦ absurd ((h.early h7).none hnone).2 hne⟩
  | part _ _ _ _ _ hps hadd =>
    -- the block is not there yet
    have hmissing := ConsensusState.not_partsComplete hps hadd
    refine h.quiet (.of_eq rfl) rfl (le_refl _) (fun _ hp ↦ ?_) (fun _ hp ↦ hp)
      fun h7 ↦ ⟨fun hn ↦ ?_, fun hne ↦ absurd ((h.early h7).complete hne) hmissing⟩
    · exact ⟨hp.proposal, hp.step, fun h7 ↦ absurd (hp.complete h7) hmissing⟩
    · exact absurd (hps.symm.trans ((h.early h7).none hn).1) (by simp)
  | received _ ps' _ _ _ _ _ _ hps hadd hcomplete hvote =>
    have hmissing := ConsensusState.not_partsComplete hps hadd
    have hc : ((s.putParts ps').readBlock env ps').PartsComplete :=
      ⟨ps', rfl, isComplete_of_completedParts hcomplete⟩
    rcases hvote with rfl | ⟨s₁, -, h₂, h₃, hv, rfl⟩
    · refine h.quiet (.of_eq rfl) rfl (le_refl _) (fun _ hp ↦ ?_)
        (fun _ hp ↦ hp) fun h7 ↦ ⟨fun hn ↦ ?_, fun _ ↦ hc⟩
      · exact ⟨hp.proposal, hp.step, fun _ ↦ hc⟩
      · exact absurd (hps.symm.trans ((h.early h7).none hn).1) (by simp)
    · have h7 : s.step.num < RoundStep.precommit.num := h₂.trans_lt (by decide)
      exact inOrder_prevote h hv (fun hp ↦ hmissing (hp.complete h7)) h7 ⟨rfl, rfl, rfl, rfl, rfl⟩
        h₃ hc
  | prevote _ s₁ hr heq ahead hvote =>
    obtain rfl := hnot ahead hr
    have h4 := heq rfl
    have h7 : s.step.num < RoundStep.precommit.num := h4.trans_lt (by decide)
    have hfresh : ¬ PastPrevote s := fun hp ↦
      absurd (hp.step.trans h4) (by decide)
    split at hvote
    · rename_i hc
      rw [isProposalComplete, Bool.and_eq_true, Option.isSome_iff_ne_none,
        Option.isSome_iff_ne_none] at hc
      exact inOrder_prevote h hvote hfresh h7 ⟨rfl, rfl, rfl, rfl, rfl⟩ hc.1
        ((h.early h7).complete hc.2)
    · subst hvote
      have hearly := h.early h7
      rcases afterPrevote_cases s₁.round s₁ with ⟨he, -⟩ | he
      · rw [he]
        exact h
      · rw [he]
        exact h.quiet ((Adds.of_eq rfl).cons rfl ⟨rfl, le_refl _⟩ rfl) rfl (le_refl _)
          (fun _ hp ↦ absurd hp hfresh) (fun _ hc ↦ absurd hc (not_le.2 h7))
          fun _ ↦ ⟨hearly.none, hearly.complete⟩
  | precommit _ _ hr heq ahead hvote =>
    obtain rfl := hnot ahead hr
    exact inOrder_precommit h (heq rfl) hvote
  | signAggr => exact h.stay (.of_eq rfl) rfl rfl rfl rfl rfl fun _ ↦ rfl
  | unlock | finalize | sendAggr =>
    exact h.stay ((Adds.of_eq rfl).cons rfl trivial rfl) rfl rfl rfl rfl rfl fun _ ↦ rfl
  | commit s₁ _ hg =>
    obtain ⟨hp, ht, hh, hr⟩ : s₁.proposal = s.proposal ∧ s₁.trace = s.trace ∧
        s₁.height = s.height ∧ s₁.round = s.round := by
      cases hg with
      | adopt => exact ⟨rfl, rfl, rfl, rfl⟩
      | fetch _ hf => cases hf <;> exact ⟨rfl, rfl, rfl, rfl⟩
    have hlate : RoundStep.precommit.num ≤ RoundStep.commit.num := by decide
    refine h.quiet (.of_eq ht) hh hr.ge (fun _ hpast ↦ ?_) (fun _ _ ↦ hlate)
      fun hlt ↦ absurd hlt (not_lt.2 hlate)
    exact ⟨by simp only [hp]; exact hpast.proposal, (by decide :
      RoundStep.prevoteWait.num ≤ RoundStep.commit.num), fun hlt ↦ absurd hlt (not_lt.2 hlate)⟩
  | committed _ _ _ _ hstep =>
    refine h.stay ((Adds.of_eq rfl).cons rfl trivial rfl) rfl rfl rfl rfl rfl fun h7 ↦ ?_
    rw [hstep] at h7
    exact absurd h7 (by decide)
  | newHeight _ _ hs hin =>
    subst hs
    exact inOrder_newHeight h (Input.admissible_height hadm hin)

theorem inOrder_started {lib : Neatlib} {cs : ConsensusState} (h : Started lib cs) :
    InOrder cs := by
  obtain ⟨_, _, _, _, -, -, -, -, rfl⟩ := h.eq
  refine ⟨le_refl 0, fun ti hti ↦ ?_, fun rs v hv ↦ ?_, fun rs v hv ↦ ?_, fun rs v hv ↦ ?_,
    fun _ ↦ ⟨fun _ ↦ ⟨rfl, rfl⟩, fun hne ↦ absurd rfl hne⟩, fun rs v rs' v' hv ↦ ?_⟩
  · obtain rfl : ti = _ := by simpa using hti
    exact .inr ⟨rfl, le_refl 0⟩
  all_goals simp at hv

theorem inOrder_inductive (lib : Neatlib) :
    Inductive lib (fun env input cs ↦ staysUp env input cs = true) InOrder where
  started _ := inOrder_started
  crashed _ _ h := h.stay (.of_eq rfl) rfl rfl rfl rfl rfl fun _ ↦ rfl
  move _ _ _ _ _ _ hadm hP hstart hs hm := inOrder_move hadm hP hstart hs hm

/-! ## When votes are unique -/

/-- **A node that never goes back to a lower round does not double sign.** -/
theorem noDoubleSign_of_staysUp {lib : Neatlib} {cs : ConsensusState}
    (h : Reachable lib (fun env input cs ↦ staysUp env input cs = true) cs) :
    NoDoubleSign cs.trace :=
  ((inOrder_inductive lib).reachable h).once

open SmallNet in
theorem noDoubleSign_of_locks :
    (votesOf (run (node [2]) locks).trace).length = 4 ∧ NoDoubleSign (run (node [2]) locks).trace :=
  ⟨by decide +kernel, noDoubleSign_of_staysUp
    (reachable_run (fun _ _ _ h ↦ h) locks (.started (started_node [2])) (by decide +kernel))⟩

/-- Two votes of one step for different blocks. -/
def Vote.conflicts (v w : Vote) : Bool :=
  v.height == w.height && v.round == w.round && v.type == w.type && v.blockID != w.blockID

theorem NoDoubleSign.not_conflicts {trace : List Event} (h : NoDoubleSign trace) :
    ((votesOf trace).any fun v => (votesOf trace).any v.conflicts) = false := by
  rw [List.any_eq_false]
  intro v hv hany
  rw [List.any_eq_true] at hany
  obtain ⟨w, hw, hvw⟩ := hany
  obtain ⟨rs, hv'⟩ := mem_votesOf.1 hv
  obtain ⟨rs', hw'⟩ := mem_votesOf.1 hw
  simp only [Vote.conflicts, Bool.and_eq_true, beq_iff_eq, bne_iff_ne] at hvw
  exact hvw.2 (h rs v rs' w hv' hw' hvw.1.1.1 hvw.1.1.2 hvw.1.2)

/-- Round 0 passes without a proposal and the node precommits nothing.  Then the proposal and its
prevotes arrive late. -/
def SmallNet.comesLate : List (Int × Input) :=
  timeout 0 .newHeight :: skipRound 0 ++
    [proposal 0 8 [1], part 0 8, arrives (signAggr 0 .prevote (blockID 8))]

open SmallNet in
/-- **A node can double sign**: it precommits nothing in round 0, is taken back there and precommits
the block that was proposed. -/
theorem doubleSign_in_lowerRound :
    ∃ cs, Reachable lib (fun _ _ _ ↦ True) cs ∧ ¬ NoDoubleSign cs.trace := by
  have hallowed : allowed (fun _ _ _ ↦ true) (node [2]) comesLate = true := by decide +kernel
  have hconflict : ((votesOf (run (node [2]) comesLate).trace).any fun v =>
      (votesOf (run (node [2]) comesLate).trace).any v.conflicts) = true := by decide +kernel
  refine ⟨_, reachable_run (fun _ _ _ _ ↦ trivial) _ (.started (started_node [2])) hallowed,
    fun h ↦ ?_⟩
  rw [h.not_conflicts] at hconflict
  cases hconflict

end NeatPoS
