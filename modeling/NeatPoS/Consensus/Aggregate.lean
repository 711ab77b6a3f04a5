import NeatPoS.Consensus.Effects

/-!
# What a stored aggregate is worth

A signature aggregate names the block it is for three times over: the signatures are checked
against the bytes of a vote for `BlockID` on the chain `ChainID`, both taken from the message, and
whoever uses the aggregate later reads `Maj23`.  Nothing compares the three with each other or with
the node's own chain.

So a stored aggregate is worth what it seems to be worth exactly when the message is consistent:
`BlockID` is `Maj23`, and `ChainID` is the node's.  (If the round is so low that the threshold is
not positive, there is nothing to be worth.)

That BLS verification can be relied upon is not proved but assumed, as
`ValidatorSet.AggregateSound`: if an aggregate verifies, every validator it lists has signed those
bytes.
-/

set_option autoImplicit false

namespace NeatPoS

open Stateful Relation Quorum

variable {env : Env} {start s cs : ConsensusState} {sa : SignAggr}

/-- `setMaj23SignAggr` stores the aggregate: it was not there before and is afterwards. -/
def StoresSignAggr (env : Env) (cs : ConsensusState) (sa : SignAggr) : Prop :=
  cs.voteSignAggr.getSignAggr sa.round sa.type ≠ some sa ∧
    (endState (setMaj23SignAggr env (some sa)) cs).voteSignAggr.getSignAggr sa.round sa.type =
      some sa

instance (env : Env) (cs : ConsensusState) (sa : SignAggr) : Decidable (StoresSignAggr env cs sa) :=
  inferInstanceAs (Decidable (_ ∧ _))

/-- The bytes that the signature of the aggregate is checked against. -/
def SignAggr.signBytes (lib : Neatlib) (sa : SignAggr) : Bytes :=
  lib.voteSignBytes ⟨sa.chainID, sa.blockID, sa.height, sa.round, sa.type⟩

/-- The bytes of a vote for `b` on the node's chain, in the height, the round and the step of the
aggregate. -/
def ConsensusState.voteBytes (lib : Neatlib) (cs : ConsensusState) (sa : SignAggr) (b : BlockID) :
    Bytes :=
  lib.voteSignBytes ⟨cs.chainID, b, cs.height, sa.round, sa.type⟩

/-- Whatever BLS verification says about who has signed, validators that reach the threshold have
signed a vote for `b`. -/
def QuorumSigned (lib : Neatlib) (cs : ConsensusState) (sa : SignAggr) (b : BlockID) : Prop :=
  ∀ signed : Validator → Bytes → Prop,
    cs.validators.AggregateSound lib signed sa.bitArray (sa.signBytes lib) sa.signatureAggr →
    ∃ bits : BitArray,
      loose23MajorThreshold cs.validators.powers.sum sa.round ≤ weight bits cs.validators.powers ∧
      ∀ (i : Nat) (v : Validator), bits[i]? = some true → cs.validators.validators[i]? = some v →
        signed v (cs.voteBytes lib sa b)

/-! ## What has been checked -/

/-- Handling an aggregate stores at most that one, and only if it is accepted. -/
theorem path_getSignAggr {key : String}
    (h : Path env start (.msg (.maj23SignAggr (some sa)) key) start s) :
    SameHeight start s ∧ ∀ r t sa', s.voteSignAggr.getSignAggr r t = some sa' →
      start.voteSignAggr.getSignAggr r t = some sa' ∨
        NewAggr env start (.msg (.maj23SignAggr (some sa)) key) start r t sa' := by
  induction h with
  | refl => exact ⟨⟨rfl, rfl, rfl⟩, fun _ _ _ hsa ↦ .inl hsa⟩
  | tail _ hm ih =>
    obtain ⟨hsame, hold⟩ := ih
    rcases hm.learns_cases with ⟨_, _, -, hstarts, -⟩ | hlearns
    · exact absurd hstarts (by simp [Input.startsHeight])
    refine ⟨hsame.trans hlearns.toSameHeight, fun r t sa' hsa ↦ ?_⟩
    rcases hlearns.aggrs r t sa' hsa with hsa | hsa
    · exact hold r t sa' hsa
    · obtain rfl := hsa.first
      exact .inr hsa

theorem StoresSignAggr.checked
    (h : StoresSignAggr env cs sa) :
    sa.height = cs.height ∧ signAggrAccepted env.lib cs.validators sa = true := by
  have hpath := handle_path env cs (.msg (.maj23SignAggr (some sa)) "")
  rcases (path_getSignAggr hpath).2 sa.round sa.type sa h.2 with hold | hnew
  · exact absurd hold h.1
  · exact ⟨hnew.height, hnew.accepted⟩

/-- What `blsVerifySignAggr` has checked when it accepts. -/
theorem signAggrAccepted_checks {lib : Neatlib} {vs : ValidatorSet}
    (h : signAggrAccepted lib vs sa = true) :
    ∃ bits pk, sa.bitArray = some bits ∧ bits.length = vs.size ∧
      vs.aggrPubKey lib sa.bitArray = some pk ∧
      lib.verifyBytes pk (sa.signBytes lib) sa.signatureAggr = true ∧
      loose23MajorThreshold vs.powers.sum sa.round ≤ weight bits vs.powers := by
  rw [signAggrAccepted, blsVerifySignAggr] at h
  split at h
  · rename_i maj23 hok
    split at hok
    · simp at hok
    split at hok
    · simp at hok
    rename_i htally
    simp only at hok
    split at hok
    · simp at hok
    rename_i pk hpk
    split at hok
    · simp at hok
    rename_i hver
    obtain ⟨bits, hbits, hlen, rfl, rfl⟩ := ValidatorSet.talliedVotingPower_eq_ok htally
    refine ⟨bits, pk, hbits, hlen, hpk, by simpa [SignAggr.signBytes] using hver, ?_⟩
    rw [← Except.ok.inj hok] at h
    simpa using h
  · cases h

/-! ## What it is worth -/

/-- Nobody need have signed anything but the bytes that were checked. -/
theorem eq_of_quorumSigned {lib : Neatlib} {b : BlockID} (h : QuorumSigned lib cs sa b)
    (hpos : 0 < loose23MajorThreshold cs.validators.powers.sum sa.round) :
    sa.signBytes lib = cs.voteBytes lib sa b := by
  obtain ⟨bits, hweight, hsigned⟩ := h (fun _ msg ↦ sa.signBytes lib = msg)
    fun _ _ _ _ _ _ _ _ _ ↦ rfl
  obtain ⟨i, w, hi, hw, -⟩ := exists_of_weight_pos bits cs.validators.powers (by omega)
  obtain ⟨v, hv, -⟩ := ValidatorSet.getElem?_powers_eq_some.1 hw
  exact hsigned i v hi hv

theorem quorumSigned_of_eq {lib : Neatlib} {b : BlockID}
    (hacc : signAggrAccepted lib cs.validators sa = true)
    (heq : sa.signBytes lib = cs.voteBytes lib sa b) : QuorumSigned lib cs sa b := by
  obtain ⟨bits, pk, hbits, -, hpk, hver, hweight⟩ := signAggrAccepted_checks hacc
  intro signed hsound
  refine ⟨bits, hweight, fun i v hi hv ↦ ?_⟩
  rw [← heq]
  exact hsound pk hpk hver bits i v hbits hi hv

/-- **What a stored aggregate is worth.**  It has a majority for `b`; that validators reaching the
threshold have signed a vote for `b` on this chain is certain exactly when the message names one
block and the node's chain, or the threshold is not positive.  The encoding of votes must tell the
two votes in question apart. -/
theorem quorumSigned_iff {env : Env} {cs : ConsensusState} {sa : SignAggr} {b : BlockID}
    (hstores : StoresSignAggr env cs sa) (hmaj : SignAggr.twoThirdsMajority (some sa) = some b)
    (hencoding : sa.signBytes env.lib = cs.voteBytes env.lib sa b →
      sa.chainID = cs.chainID ∧ sa.blockID = b) :
    QuorumSigned env.lib cs sa b ↔
      loose23MajorThreshold cs.validators.powers.sum sa.round ≤ 0 ∨
        sa.chainID = cs.chainID ∧ sa.blockID = sa.maj23 := by
  obtain ⟨hheight, hacc⟩ := hstores.checked
  obtain ⟨_, heq, hb, -⟩ := SignAggr.twoThirdsMajority_eq_some.1 hmaj
  cases heq
  rw [hb]
  constructor
  · intro h
    rcases le_or_gt (loose23MajorThreshold cs.validators.powers.sum sa.round) 0 with hle | hpos
    · exact .inl hle
    · exact .inr (hencoding (eq_of_quorumSigned h hpos))
  · rintro (hle | ⟨hchain, hblock⟩)
    · -- an empty quorum has signed everything
      exact fun _ _ ↦ ⟨[], by simpa using hle, by simp⟩
    · refine quorumSigned_of_eq hacc ?_
      rw [SignAggr.signBytes, ConsensusState.voteBytes, hchain, hblock, hheight]

open SmallNet in
theorem quorumSigned_iff_honest :
    QuorumSigned lib (node [2]) (signAggr 0 .prevote (blockID 7)) (blockID 7) ↔
      loose23MajorThreshold (node [2]).validators.powers.sum 0 ≤ 0 ∨
        "neatio" = (node [2]).chainID ∧ blockID 7 = blockID 7 := by
  have hstores : StoresSignAggr (SmallNet.env 0) (node [2]) (signAggr 0 .prevote (blockID 7)) := by
    decide +kernel
  exact quorumSigned_iff hstores (by decide +kernel) fun _ ↦ ⟨by decide +kernel, rfl⟩

/-- An aggregate whose signature is for block 7 and whose `Maj23` is block 9. -/
def SmallNet.twoFaced : SignAggr :=
  { signAggr 0 .prevote (blockID 7) with maj23 := blockID 9 }

open SmallNet in
/-- **An aggregate can be worthless**: the node stores it and finds a majority for block 9, although
nobody has signed a vote for block 9. -/
theorem quorumSigned_fails_for_twoFaced :
    Reachable lib (fun _ _ _ ↦ True) (node [2]) ∧ StoresSignAggr (SmallNet.env 0) (node [2]) twoFaced ∧
      SignAggr.twoThirdsMajority (some twoFaced) = some (blockID 9) ∧
      ¬ QuorumSigned lib (node [2]) twoFaced (blockID 9) := by
  refine ⟨.started (started_node [2]), by decide +kernel, by decide +kernel, fun h ↦ ?_⟩
  have heq := eq_of_quorumSigned h (by decide +kernel)
  have hne : twoFaced.signBytes lib ≠ (node [2]).voteBytes lib twoFaced (blockID 9) := by
    decide +kernel
  exact hne heq

end NeatPoS
