import NeatPoS.Consensus.Effects

/-!
# The lock rule

A node that has locked a block gives the lock up, or moves it, only because of a majority of
prevotes; the rule is that the majority must be of a later round than the lock.  The code enforces
it in one of the four places that write the lock, `setMaj23SignAggr`.  In the other three, all in
`enterPrecommit`, it is a consequence of rounds only going up: a node that is locked in round `r`
has precommitted in round `r`, and will not reconsider in that round or in an earlier one.

Rounds do not only go up.  `enterLowerRound` takes the node back and keeps the lock.  So the rule
holds in the runs in which the node never goes back to, or behind, the round of its lock
(`lowersAboveLock`), and there are runs in which it does and breaks the rule.

The rule is a statement about the trace.  Every decision about the lock is a `polka` event there,
with the state before it, and `lockOf` reads off the trace what the lock must be.
-/

set_option autoImplicit false

namespace NeatPoS

open Stateful Relation

variable {t : List Event} {s s' : ConsensusState} {r : Int} {env : Env}

/-- The round in which the node is locked, according to its trace: the last decision counts, if it
was made at this height. -/
def lockOf (height : Nat) : List Event → Option Int
  | [] => none
  | .polka before r _ act :: _ =>
    if before.height = height ∧ act ≠ .unlock then some r else none
  | _ :: older => lockOf height older

/-- The vote follows directly on the majority that it is cast for. -/
def FollowsPolka (older : List Event) (b : BlockID) : Prop :=
  ∃ before r act, act ≠ .unlock ∧ older.head? = some (.polka before r b act)

/-- The lock rule. -/
structure LockRule (cs : ConsensusState) : Prop where
  /-- Only a majority of a later round than the lock's is acted upon. -/
  later : ∀ before r b act, .polka before r b act ∈ cs.trace → before.lockedBlock ≠ none →
    before.lockedRound < r
  /-- A precommit for a block is cast on the strength of such a majority. -/
  precommit : ∀ rs v older, .signed rs v :: older <:+ cs.trace → v.type = .precommit →
    v.blockID ≠ .zero → FollowsPolka older v.blockID
  /-- Nothing else changes the lock. -/
  lock : lockOf cs.height cs.trace =
    if cs.lockedBlock.isSome then some cs.lockedRound else none

/-- The step does not take the node back to the round of its lock, or behind it. -/
def lowersAboveLock (env : Env) (input : Input) (cs : ConsensusState) : Bool :=
  (lowerRound env cs input).all fun r => cs.lockedBlock.isNone || cs.lockedRound < r

/-! ## Events that leave the lock alone -/

/-- The event is no decision about the lock, and no precommit for a block. -/
def Event.keepsLock : Event → Prop
  | .polka _ _ _ _ => False
  | .signed _ v => v.type = .precommit → v.blockID = .zero
  | _ => True

theorem lockOf_append {height : Nat} {l : List Event} (hl : ∀ e ∈ l, e.keepsLock) :
    lockOf height (l ++ t) = lockOf height t := by
  induction l with
  | nil => rfl
  | cons e _ ih =>
    have he := hl e (by simp)
    have ih' := ih fun e' he' ↦ hl e' (by simp [he'])
    cases e with
    | polka => exact absurd he id
    | _ => exact ih'

/-- At a height at which nothing has been decided, nothing is locked. -/
theorem lockOf_eq_none {height : Nat}
    (h : ∀ before r b act, .polka before r b act ∈ t → before.height < height) :
    lockOf height t = none := by
  induction t with
  | nil => rfl
  | cons e _ ih =>
    cases e with
    | polka before r b act =>
      have hne : before.height ≠ height := ne_of_lt (h before r b act (by simp))
      rw [lockOf, if_neg fun hc ↦ hne hc.1]
    | _ => exact ih fun before r b act hmem ↦ h before r b act (by simp [hmem])

/-- Where an event stands in a trace that has grown. -/
theorem suffix_append_cases {e : Event} {older l : List Event} (h : e :: older <:+ l ++ t) :
    e ∈ l ∨ e :: older <:+ t := by
  induction l with
  | nil => exact .inr h
  | cons a _ ih =>
    rcases List.suffix_cons_iff.1 h with heq | h
    · rw [List.cons.inj heq |>.1]
      exact .inl (by simp)
    · exact (ih h).imp (List.mem_cons_of_mem a) id

/-- What does not depend on where the node stands. -/
structure LockTrace (s : ConsensusState) : Prop where
  rule : LockRule s
  /-- Decisions are made at the node's height or before. -/
  heights : ∀ before r b act, .polka before r b act ∈ s.trace → before.height ≤ s.height
  /-- A block that is shared with the proposal is there. -/
  shared : s.lockedBlockShared = true → s.lockedBlock ≠ none

/-- Where a node stands when it is locked: beyond the point where it would decide again in the
round of its lock. -/
def PastLock (s : ConsensusState) : Prop :=
  s.lockedBlock ≠ none → s.lockedRound ≤ s.round ∧
    (s.lockedRound = s.round → RoundStep.precommit.num ≤ s.step.num)

theorem LockTrace.quiet (h : LockTrace s) (hadds : Adds Event.keepsLock s s')
    (hheight : s'.height = s.height) (hblock : s'.lockedBlock.isSome = s.lockedBlock.isSome)
    (hround : s'.lockedRound = s.lockedRound)
    (hshared : s'.lockedBlockShared = true → s'.lockedBlock ≠ none) : LockTrace s' := by
  obtain ⟨l, htrace, hl, -⟩ := hadds
  have hpolka : ∀ before r b act, .polka before r b act ∈ s'.trace →
      .polka before r b act ∈ s.trace := by
    intro before r b act hmem
    rw [htrace] at hmem
    rcases List.mem_append.1 hmem with hmem | hmem
    · exact absurd (hl _ hmem) id
    · exact hmem
  refine ⟨⟨?_, ?_, ?_⟩, ?_, hshared⟩
  · exact fun before r b act hmem ↦ h.rule.later before r b act (hpolka before r b act hmem)
  · intro rs v older hsuf htype hne
    rw [htrace] at hsuf
    rcases suffix_append_cases hsuf with hmem | hsuf
    · exact absurd (hl _ hmem htype) hne
    · exact h.rule.precommit rs v older hsuf htype hne
  · rw [htrace, lockOf_append hl, hheight, h.rule.lock, hblock, hround]
  · intro before r b act hmem
    rw [hheight]
    exact h.heights before r b act (hpolka before r b act hmem)

/-- A decision because of a majority of a round after the lock's. -/
theorem LockTrace.decide (h : LockTrace s) {b : BlockID}
    {act : LockAction} (htrace : s'.trace = .polka s.toRoundState r b act :: s.trace)
    (hheight : s'.height = s.height) (hlt : s.lockedBlock ≠ none → s.lockedRound < r)
    (hlock : (if s'.lockedBlock.isSome then some s'.lockedRound else none) =
      if act ≠ .unlock then some r else none)
    (hshared : s'.lockedBlockShared = true → s'.lockedBlock ≠ none) : LockTrace s' := by
  refine ⟨⟨?_, ?_, ?_⟩, ?_, hshared⟩
  · intro before r' b' act' hmem hne
    rw [htrace] at hmem
    rcases List.mem_cons.1 hmem with heq | hmem
    · cases heq
      exact hlt hne
    · exact h.rule.later before r' b' act' hmem hne
  · intro rs v older hsuf
    rw [htrace] at hsuf
    rcases List.suffix_cons_iff.1 hsuf with heq | hsuf
    · cases heq
    · exact h.rule.precommit rs v older hsuf
  · rw [htrace, hlock, lockOf, hheight]
    by_cases hact : act = .unlock <;> simp [hact]
  · intro before r' b' act' hmem
    rw [htrace] at hmem
    rw [hheight]
    rcases List.mem_cons.1 hmem with heq | hmem
    · cases heq
      exact le_refl _
    · exact h.heights before r' b' act' hmem

/-- Voting, where a precommit for a block comes right after its majority. -/
theorem LockTrace.signs {type : VoteType} {b : BlockID}
    (h : LockTrace s) (hs : Signs env type b s s')
    (hb : type = .precommit → b ≠ .zero → FollowsPolka s.trace b) : LockTrace s' := by
  cases hs with
  | skip => exact h
  | cast _ talk htalk =>
    have hkeep : ∀ e ∈ talk, e.keepsLock := by
      intro e he
      have := htalk e he
      cases e <;> simp_all [Event.isTalk, Event.keepsLock]
    have hpolka : ∀ {before : RoundState} {r : Int} {b' : BlockID} {act : LockAction},
        .polka before r b' act ∈ talk ++ .signed s.toRoundState (signVote env s type b) :: s.trace →
        .polka before r b' act ∈ s.trace := by
      intro before r b' act hm
      rcases List.mem_append.1 hm with hm | hm
      · exact absurd (hkeep _ hm) id
      · exact List.mem_of_ne_of_mem (by simp) hm
    refine ⟨⟨?_, ?_, ?_⟩, ?_, h.shared⟩
    · exact fun before r b' act hm ↦ h.rule.later before r b' act (hpolka hm)
    · intro rs v older hsuf htype hne
      rcases suffix_append_cases hsuf with hm | hsuf
      · exact absurd (hkeep _ hm htype) hne
      · rcases List.suffix_cons_iff.1 hsuf with heq | hsuf
        · cases heq
          exact hb htype hne
        · exact h.rule.precommit rs v older hsuf htype hne
    · rw [lockOf_append hkeep]
      exact h.rule.lock
    · exact fun before r b' act hm ↦ h.heights before r b' act (hpolka hm)

/-! ## Every move keeps the rule -/

theorem PastLock.forward (h : PastLock s) (hblock : s'.lockedBlock.isSome = s.lockedBlock.isSome)
    (hround : s'.lockedRound = s.lockedRound) (hpos : s.round < s'.round ∨ s.round = s'.round ∧
      (RoundStep.precommit.num ≤ s.step.num → RoundStep.precommit.num ≤ s'.step.num)) :
    PastLock s' := by
  intro hne
  have hne' : s.lockedBlock ≠ none := by
    rw [← Option.isSome_iff_ne_none, ← hblock, Option.isSome_iff_ne_none]
    exact hne
  obtain ⟨hle, heq⟩ := h hne'
  rw [hround]
  rcases hpos with hlt | ⟨hr, hstep⟩
  · exact ⟨by omega, fun h ↦ by omega⟩
  · rw [← hr]
    exact ⟨hle, fun h ↦ hstep (heq h)⟩

/-- A locked node that may still precommit in round `r` is locked in an earlier one. -/
theorem PastLock.lt (h : PastLock s) (hr : s.round ≤ r)
    (heq : s.round = r → s.step.num < RoundStep.precommit.num) (hne : s.lockedBlock ≠ none) :
    s.lockedRound < r := by
  obtain ⟨hle, hstep⟩ := h hne
  rcases lt_or_eq_of_le (hle.trans hr) with hlt | heq'
  · exact hlt
  · have hround : s.round = r := by omega
    exact absurd (hstep (by omega)) (by have := heq hround; omega)

theorem isSome_of_hashesTo {lib : Neatlib} {block : Option TdmBlock} {h : Bytes}
    (hh : TdmBlock.hashesTo lib block h = .ok true) : block.isSome = true :=
  Option.isSome_iff_ne_none.2 (TdmBlock.hashesTo_eq_true.1 hh).2.1

theorem LockTrace.fetches {header : PartSetHeader} (h : LockTrace s)
    (hf : Fetches header s s') : LockTrace s' := by
  obtain ⟨hblock, hround, htrace, hshared⟩ := hf.lock_eq
  refine h.quiet (.of_eq htrace) hf.frame.1 (by rw [hblock]) hround fun hs ↦ ?_
  rw [hblock]
  exact h.shared (hshared hs)

/-- Deciding in round `r`, and what is locked then. -/
theorem LockTrace.precommits (h : LockTrace s)
    (hlt : s.lockedBlock ≠ none → s.lockedRound < r) (hp : Precommits env r s s') :
    LockTrace s' ∧ (s'.lockedBlock ≠ none → s'.lockedRound ≤ r) := by
  cases hp with
  | abstain hs =>
    refine ⟨h.signs hs fun _ hne ↦ absurd rfl hne, ?_⟩
    rw [hs.lock_eq.1, hs.lock_eq.2]
    exact fun hne ↦ (hlt hne).le
  | relock b _ hl hs =>
    have hd : LockTrace (s.relock r b) := h.decide rfl rfl hlt
      (by simp [ConsensusState.relock, isSome_of_hashesTo hl]) h.shared
    refine ⟨hd.signs hs fun _ _ ↦ ⟨_, r, .relock, by simp, rfl⟩, ?_⟩
    rw [hs.lock_eq.2]
    exact fun _ ↦ le_refl r
  | lock b _ _ hprop hs =>
    have hsome := isSome_of_hashesTo hprop
    have hd : LockTrace (s.lock r b) := h.decide rfl rfl hlt
      (by simp [ConsensusState.lock, hsome]) fun _ ↦ Option.isSome_iff_ne_none.1 hsome
    refine ⟨hd.signs hs fun _ _ ↦ ⟨_, r, .lock, by simp, rfl⟩, ?_⟩
    rw [hs.lock_eq.2]
    exact fun _ ↦ le_refl r
  | unlock b _ _ hf hs =>
    have hd : LockTrace (s.unlock r b) := h.decide rfl rfl hlt
      (by simp [ConsensusState.unlock]) fun h ↦ absurd h (by simp [ConsensusState.unlock])
    refine ⟨(hd.fetches hf).signs hs fun _ hne ↦ absurd rfl hne, fun hne ↦ ?_⟩
    rw [hs.lock_eq.1, hf.lock_eq.1] at hne
    exact absurd rfl hne

theorem LockTrace.prevotes (h : LockTrace s) (hp : Prevotes env s s') :
    LockTrace s' ∧ s'.lockedBlock = s.lockedBlock ∧ s'.lockedRound = s.lockedRound := by
  cases hp with
  | none => exact ⟨h.quiet (.of_eq rfl) rfl rfl rfl h.shared, rfl, rfl⟩
  | vote vrf _ _ hs =>
    have hv : LockTrace { s with vrfValIndex := vrf } :=
      h.quiet (.of_eq rfl) rfl rfl rfl h.shared
    exact ⟨hv.signs hs fun htype ↦ absurd htype (by simp), hs.lock_eq⟩

/-- What an invariant knows of the rule: the trace, and where the node stands. -/
def LockInv (s : ConsensusState) : Prop := LockTrace s ∧ PastLock s

/-- A move that does not decide about the lock. -/
theorem LockInv.forward (h : LockInv s) (hadds : Adds Event.keepsLock s s')
    (hheight : s'.height = s.height) (hblock : s'.lockedBlock.isSome = s.lockedBlock.isSome)
    (hround : s'.lockedRound = s.lockedRound)
    (hshared : s'.lockedBlockShared = true → s'.lockedBlock ≠ none)
    (hpos : s.round < s'.round ∨ s.round = s'.round ∧
      (RoundStep.precommit.num ≤ s.step.num → RoundStep.precommit.num ≤ s'.step.num)) :
    LockInv s' :=
  ⟨h.1.quiet hadds hheight hblock hround hshared, h.2.forward hblock hround hpos⟩

/-- Waiting for prevotes, from a place before the step `precommit`. -/
theorem lock_afterPrevote {s₁ : ConsensusState} (h : LockTrace s₁) (hp : PastLock s)
    (hblock : s₁.lockedBlock = s.lockedBlock) (hround : s₁.lockedRound = s.lockedRound)
    (hframe : s₁.height = s.height ∧ s₁.round = s.round ∧ s₁.step = s.step) (hr : s.round ≤ r)
    (heq : s.round = r → s.step.num < RoundStep.precommit.num) : LockInv (afterPrevote r s₁) := by
  obtain ⟨-, hr₁, hstep⟩ := hframe
  have h₁ : LockInv s₁ := ⟨h, hp.forward (by rw [hblock]) hround (.inr ⟨hr₁.symm, hstep ▸ id⟩)⟩
  rcases afterPrevote_cases r s₁ with ⟨he, -⟩ | he
  · rwa [he]
  rw [he]
  refine h₁.forward ((Adds.of_eq rfl).cons rfl trivial rfl) rfl rfl rfl h.shared ?_
  rcases lt_or_eq_of_le hr with hlt | heq'
  · exact .inl (hr₁ ▸ hlt)
  · refine .inr ⟨hr₁.trans heq', fun h7 ↦ absurd (heq heq') ?_⟩
    rw [← hstep]
    omega

theorem Chatter.keepsLock {start : ConsensusState} {input : Input} {e : Event}
    (h : Chatter start input s e) : e.keepsLock := by
  cases h <;> trivial

/-- At a new height nothing is decided. -/
theorem lockInv_newHeight {validators : ValidatorSet} {votes : HeightVoteSet} (h : LockTrace s)
    (hgrows : s.height ≤ (lastExtra env s).height) : LockInv (s.atNewHeight env validators votes) := by
  have hnew : ∀ before r b act, .polka before r b act ∈ s.trace →
      before.height < (lastExtra env s).height + 1 := by
    intro before r b act hmem
    have := h.heights before r b act hmem
    omega
  refine ⟨⟨⟨h.rule.later, h.rule.precommit, ?_⟩, fun before r b act hmem ↦
    (hnew before r b act hmem).le, fun h ↦ absurd h (by simp [ConsensusState.atNewHeight])⟩,
    fun h ↦ absurd rfl h⟩
  exact lockOf_eq_none hnew

theorem lockInv_move {start : ConsensusState} {input : Input}
    (hadm : input.admissible env start = true) (hP : lowersAboveLock env input start = true)
    (h : LockInv s) (hm : Move env start input s s') : LockInv s' := by
  have ht := h.1
  have hp := h.2
  have hcommit : RoundStep.precommit.num ≤ RoundStep.commit.num := by decide
  cases hm with
  | upkeep _ _ _ _ _ _ _ _ _ _ _ hl =>
    exact h.forward (.of_chatter rfl hl fun _ ↦ Chatter.keepsLock) rfl rfl rfl ht.shared
      (.inr ⟨rfl, id⟩)
  | newRound r hr heq =>
    have hpos : s.round < r ∨ s.round = r ∧ (RoundStep.precommit.num ≤ s.step.num →
        RoundStep.precommit.num ≤ RoundStep.newRound.num) := by
      rcases lt_or_eq_of_le hr with hlt | heq'
      · exact .inl hlt
      · refine .inr ⟨heq', fun h ↦ absurd h ?_⟩
        rw [heq heq']
        decide
    rw [ConsensusState.enterRound]
    split
    · exact h.forward (.of_eq rfl) rfl rfl rfl (fun h ↦ absurd h (by simp [clearRound])) hpos
    · exact h.forward (.of_eq rfl) rfl rfl rfl ht.shared hpos
  | lower r hr _ hstart =>
    refine ⟨ht.quiet (.of_eq rfl) rfl rfl rfl fun h ↦ absurd h (by simp [clearRound]), ?_⟩
    -- the condition speaks of the state before the step, whose lock is still in place
    have hblock : s.lockedBlock = start.lockedBlock := congrArg RoundState.lockedBlock hstart
    have hround : s.lockedRound = start.lockedRound := congrArg RoundState.lockedRound hstart
    intro hne
    have hne' : start.lockedBlock ≠ none := hblock ▸ hne
    rw [lowersAboveLock, hr, Option.all_some, Bool.or_eq_true, Option.isNone_iff_eq_none,
      decide_eq_true_eq] at hP
    have hlt' : s.lockedRound < r := hround ▸ hP.resolve_left hne'
    exact ⟨hlt'.le, fun h ↦ absurd h (ne_of_lt hlt')⟩
  | propose _ hr heq =>
    refine h.forward (.of_eq rfl) rfl rfl rfl ht.shared ?_
    rcases lt_or_eq_of_le hr with hlt | heq'
    · exact .inl hlt
    · refine .inr ⟨heq', fun h ↦ absurd (h.trans_lt (heq heq')) (by decide)⟩
  | proposal | part | signAggr =>
    exact h.forward (.of_eq rfl) rfl rfl rfl ht.shared (.inr ⟨rfl, id⟩)
  | received _ ps' _ _ _ _ _ _ _ _ _ hvote =>
    have hread : LockInv ((s.putParts ps').readBlock env ps') :=
      h.forward (.of_eq rfl) rfl rfl rfl
        (fun h ↦ absurd h (by simp [ConsensusState.readBlock])) (.inr ⟨rfl, id⟩)
    rcases hvote with rfl | ⟨_, h₁, h₂, h₃, hv, rfl⟩
    · exact hread
    · obtain ⟨hv₁, hv₂, hv₃⟩ := hread.1.prevotes hv
      exact lock_afterPrevote hv₁ hp hv₂ hv₃ hv.frame (le_refl _) fun _ ↦ h₂.trans_lt (by decide)
  | prevote r _ hr heq _ hvote =>
    have hstep : s.round = r → s.step.num < RoundStep.precommit.num :=
      fun h ↦ (heq h).trans_lt (by decide)
    split at hvote
    · obtain ⟨hv₁, hv₂, hv₃⟩ := ht.prevotes hvote
      exact lock_afterPrevote hv₁ hp hv₂ hv₃ hvote.frame hr hstep
    · subst hvote
      exact lock_afterPrevote ht hp rfl rfl ⟨rfl, rfl, rfl⟩ hr hstep
  | precommit _ _ hr heq _ hvote =>
    obtain ⟨hv, hle⟩ := ht.precommits (hp.lt hr heq) hvote
    exact ⟨hv.quiet ((Adds.of_eq rfl).cons rfl trivial rfl) rfl rfl rfl hv.shared,
      fun hne ↦ ⟨hle hne, fun _ ↦ (by decide :
        RoundStep.precommit.num ≤ RoundStep.precommitWait.num)⟩⟩
  | unlock _ _ _ _ _ _ _ hlt =>
    exact ⟨ht.decide rfl rfl (fun _ ↦ hlt) (by simp [ConsensusState.unlock])
      fun h ↦ absurd h (by simp [ConsensusState.unlock]), fun h ↦ absurd rfl h⟩
  | commit _ _ hg =>
    cases hg with
    | adopt _ _ hl =>
      exact h.forward (.of_eq rfl) rfl rfl rfl
        (fun _ ↦ Option.isSome_iff_ne_none.1 (isSome_of_hashesTo hl)) (.inr ⟨rfl, fun _ ↦ hcommit⟩)
    | fetch _ hf =>
      obtain ⟨hblock, hround, htrace, -⟩ := hf.lock_eq
      exact h.forward (.of_eq htrace) hf.frame.1 (by simp [hblock]) hround (ht.fetches hf).shared
        (.inr ⟨hf.frame.2.1.symm, fun _ ↦ hcommit⟩)
  | finalize | sendAggr =>
    exact h.forward ((Adds.of_eq rfl).cons rfl trivial rfl) rfl rfl rfl ht.shared (.inr ⟨rfl, id⟩)
  | committed _ sealed =>
    have hsome : (if s.lockedBlockShared then some sealed else s.lockedBlock).isSome =
        s.lockedBlock.isSome := by
      split
      · rename_i hshared
        rw [Option.isSome_some, Option.isSome_iff_ne_none.2 (ht.shared hshared)]
      · rfl
    refine h.forward ((Adds.of_eq rfl).cons rfl trivial rfl) rfl hsome rfl (fun h ↦ ?_)
      (.inr ⟨rfl, id⟩)
    exact Option.isSome_iff_ne_none.1 (hsome.trans (Option.isSome_iff_ne_none.2 (ht.shared h)))
  | newHeight _ _ hstart hin =>
    subst hstart
    exact lockInv_newHeight ht (Input.admissible_height hadm hin)

theorem lockInv_started {lib : Neatlib} {cs : ConsensusState} (h : Started lib cs) :
    LockInv cs := by
  obtain ⟨_, _, _, _, -, -, -, -, rfl⟩ := h.eq
  refine ⟨⟨⟨?_, ?_, rfl⟩, ?_, fun h ↦ absurd h (by simp [ConsensusState.atNewHeight])⟩,
    fun h ↦ absurd rfl h⟩
  · intro before r b act hmem
    simp at hmem
  · intro rs v older hsuf
    rcases List.suffix_cons_iff.1 hsuf with heq | hsuf
    · simp at heq
    · simp at hsuf
  · intro before r b act hmem
    simp at hmem

theorem lockInv_inductive (lib : Neatlib) :
    Inductive lib (fun env input cs ↦ lowersAboveLock env input cs = true) LockInv where
  started _ := lockInv_started
  crashed _ _ h := h.forward (.of_eq rfl) rfl rfl rfl h.1.shared (.inr ⟨rfl, id⟩)
  move _ _ _ _ _ _ hadm hP _ hs hm := lockInv_move hadm hP hs hm

/-! ## When the rule holds -/

/-- **The lock rule holds** in every run in which the node never goes back to the round of its
lock, or behind it. -/
theorem lockRule_of_lowersAboveLock {lib : Neatlib} {cs : ConsensusState}
    (h : Reachable lib (fun env input cs ↦ lowersAboveLock env input cs = true) cs) :
    LockRule cs :=
  ((lockInv_inductive lib).reachable h).1.rule

namespace SmallNet

/-- The proposal of round 0 arrives late, and so do prevotes of round 0 for another block. -/
def goesBack : List (Int × Input) :=
  [proposal 0 8 [1], arrives (signAggr 0 .prevote (blockID 9)), timeout 0 .propose,
    timeout 0 .prevoteWait]

end SmallNet

open SmallNet in
theorem lockRule_of_locks :
    (run (node [2]) locks).lockedRound = 2 ∧ LockRule (run (node [2]) locks) :=
  ⟨by decide +kernel, lockRule_of_lowersAboveLock
    (reachable_run (fun _ _ _ h ↦ h) locks (.started (started_node [2])) (by decide +kernel))⟩

/-- A decision because of a majority of a round that is not after the lock's. -/
def Event.breaksLock : Event → Bool
  | .polka before r _ _ => before.lockedBlock.isSome && r ≤ before.lockedRound
  | _ => false

theorem LockRule.not_breaksLock {cs : ConsensusState} (h : LockRule cs) :
    cs.trace.any Event.breaksLock = false := by
  rw [List.any_eq_false]
  intro e he hbreaks
  cases e with
  | polka before r b act =>
    rw [Event.breaksLock, Bool.and_eq_true, Option.isSome_iff_ne_none, decide_eq_true_eq] at hbreaks
    exact absurd (h.later before r b act he hbreaks.1) (not_lt.2 hbreaks.2)
  | _ => exact absurd hbreaks (by simp [Event.breaksLock])

open SmallNet in
/-- **The lock rule can be broken**: the node, locked in round 2, is taken back to round 0 and gives
its lock up because of prevotes of round 0. -/
theorem lockRule_broken_in_lowerRound :
    ∃ cs, Reachable lib (fun _ _ _ ↦ True) cs ∧ ¬ LockRule cs := by
  have hallowed : allowed (fun _ _ _ ↦ true) (node [2]) (locks ++ goesBack) = true := by
    decide +kernel
  have hbreaks : (run (node [2]) (locks ++ goesBack)).trace.any Event.breaksLock = true := by
    decide +kernel
  refine ⟨_, reachable_run (fun _ _ _ _ ↦ trivial) _ (.started (started_node [2])) hallowed,
    fun h ↦ ?_⟩
  rw [h.not_breaksLock] at hbreaks
  cases hbreaks

end NeatPoS
