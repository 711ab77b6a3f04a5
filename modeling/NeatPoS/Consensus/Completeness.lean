import NeatPoS.Consensus.Runs
import NeatPoS.Types.Majority

/-!
# Whether an aggregate is accepted

When the votes that a proposer has collected have a majority, `sendMaj23SignAggr` puts the
signatures together and sends the aggregate to everybody, the proposer included.  Whoever receives
it adds up the power of its signers once more, and so does whoever later verifies the commit made
from it.  The three sums are over the same validators, but the set of votes that finds the majority
adds up votes with the same *key*, the aggregate those with the same *block id*; and the key is the
hash of the block followed by the bytes of the header of its parts, without anything in between.

* `completeAggregate_iff` says that this is all that can go wrong: the aggregate is accepted, and
  the commit made from it verifies, exactly when the votes for the very block id of the majority
  reach the threshold.
* `exact_of_apart` says that they do when no vote of the run shares its key with a vote for another
  block id.
* `completeAggregate_fails` is a run in which one does.  The last byte of the hash of the parts is
  zero there, which wire-go also writes for the length of an empty byte string, so that all but the
  last nine bytes of the key can be read as the hash of another block.

That the aggregate of valid signatures verifies is not proved but assumed, as `BlsComplete`.
-/

set_option autoImplicit false

namespace NeatPoS

open Stateful Quorum

/-- `SignAggr.HasTwoThirdsMajority`. -/
def SignAggr.hasTwoThirdsMajority (sa : SignAggr) (valSet : Option ValidatorSet) : Bool :=
  match valSet with
  | none => false
  | some valSet =>
    match valSet.talliedVotingPower sa.bitArray with
    | .error _ => false
    | .ok (_, votesSum, totalVotes) => loose23MajorThreshold totalVotes sa.round ≤ votesSum

/-- What BLS aggregation promises: signatures of validators on one message have an aggregate, which
the aggregate of the keys verifies.  A signer is a key with a signature. -/
def BlsComplete (lib : Neatlib) (vs : ValidatorSet) : Prop :=
  ∀ (signers : List (Bytes × Bytes)) (msg : Bytes), signers ≠ [] →
    (∀ s ∈ signers, (∃ v ∈ vs.validators, v.pubKey = s.1) ∧ lib.verifyBytes s.1 msg s.2 = true) →
    ∃ pk sig, lib.blsPubKeyAggregate (signers.map (·.1)) = some pk ∧
      lib.blsSignatureAggregate (signers.map (·.2)) = some sig ∧ sig ≠ [] ∧
      lib.verifyBytes pk msg sig = true

/-! ## Who is in the aggregate -/

namespace VoteSet

variable {lib : Neatlib} {vs vs' : VoteSet} {vote : Vote} {val : Validator} {b : BlockID}

/-- The canonical votes for the block id `b` itself, as bits. -/
def votesExactly (vs : VoteSet) (b : BlockID) : BitArray :=
  vs.votes.map fun v => v.any (·.blockID == b)

theorem getElem?_votesExactly {i : Nat} :
    (vs.votesExactly b)[i]? = some true ↔ ∃ w, vs.canonical i = some w ∧ w.blockID = b := by
  rw [votesExactly, List.getElem?_map, canonical, List.getD_eq_getElem?_getD]
  rcases vs.votes[i]? with _ | _
  · simp
  · simp [Option.any_eq_true]

theorem mem_majorityVotes {v : Vote} :
    v ∈ majorityVotes vs b ↔ v.blockID = b ∧ ∃ i, vs.canonical i = some v := by
  rw [majorityVotes, List.mem_filterMap]
  constructor
  · rintro ⟨w, hw, hv⟩
    obtain ⟨rfl, hb⟩ := Option.filter_eq_some_iff.1 hv
    obtain ⟨i, hi⟩ := List.mem_iff_getElem?.1 hw
    exact ⟨by simpa using hb, i, by rw [canonical, List.getD_eq_getElem?_getD, hi]; rfl⟩
  · rintro ⟨rfl, i, hi⟩
    rw [canonical, List.getD_eq_getElem?_getD] at hi
    refine ⟨some v, List.mem_iff_getElem?.2 ⟨i, ?_⟩, by simp⟩
    rcases h : vs.votes[i]? with _ | w
    · simp [h] at hi
    · rw [h, Option.getD_some] at hi
      rw [hi]

end VoteSet

/-- Setting the bits of some validators. -/
theorem getElem?_foldl_set (votes : List Vote) (bits : BitArray) (i : Nat) :
    (votes.foldl (fun bits v => bits.set v.validatorIndex true) bits)[i]? =
      if ∃ v ∈ votes, v.validatorIndex = i then bits[i]?.map fun _ => true else bits[i]? := by
  induction votes generalizing bits with
  | nil => simp
  | cons v votes ih =>
    rw [List.foldl_cons, ih]
    by_cases hv : v.validatorIndex = i
    · have hmem : ∃ w ∈ v :: votes, w.validatorIndex = i := ⟨v, List.mem_cons_self .., hv⟩
      rw [if_pos hmem, hv, List.getElem?_set_self']
      rcases bits[i]? with _ | _ <;> simp
    · simp [hv]

/-- The bits of the aggregate are those of the votes for its block id. -/
theorem signBitArray_majorityVotes {lib : Neatlib} {vs : VoteSet} (h : vs.Tallied lib)
    (b : BlockID) :
    signBitArray vs.valSet.size (majorityVotes vs b) = vs.votesExactly b := by
  refine List.ext_getElem? fun i ↦ ?_
  have hindex : (∃ v ∈ majorityVotes vs b, v.validatorIndex = i) ↔
      (vs.votesExactly b)[i]? = some true := by
    rw [VoteSet.getElem?_votesExactly]
    constructor
    · rintro ⟨v, hv, rfl⟩
      obtain ⟨hb, j, hj⟩ := VoteSet.mem_majorityVotes.1 hv
      exact ⟨v, by rw [(h.votes j v hj).1, hj], hb⟩
    · rintro ⟨v, hv, hb⟩
      exact ⟨v, VoteSet.mem_majorityVotes.2 ⟨hb, i, hv⟩, (h.votes i v hv).1⟩
  have hlen : (vs.votesExactly b).length = vs.valSet.size := by
    rw [VoteSet.votesExactly, List.length_map, h.length]
  rw [signBitArray, getElem?_foldl_set, List.getElem?_replicate]
  by_cases hi : i < vs.valSet.size
  · split
    · rename_i hset
      rw [hindex.1 hset]
      rfl
    · rename_i hset
      have hbit := hset ∘ hindex.2
      rw [List.getElem?_eq_getElem (hlen.symm ▸ hi)] at hbit ⊢
      simpa using hbit
  · rw [if_neg hi, List.getElem?_eq_none (by omega)]
    simp

/-- The keys and the signatures of those who have voted for `b`. -/
def votersOf (b : BlockID) (votes : List (Option Vote)) (vals : List Validator) :
    List (Bytes × Bytes) :=
  (votes.zip vals).filterMap fun x =>
    (x.1.filter (·.blockID == b)).map fun v => (x.2.pubKey, v.signature)

theorem votersOf_cons (b : BlockID) (v : Option Vote) (votes : List (Option Vote)) (val : Validator)
    (vals : List Validator) : votersOf b (v :: votes) (val :: vals) =
      ((v.filter (·.blockID == b)).map fun v => (val.pubKey, v.signature)).toList ++
        votersOf b votes vals := by
  rw [votersOf, List.zip_cons_cons, List.filterMap_cons]
  split
  · rename_i h
    rw [h]
    rfl
  · rename_i h
    rw [h]
    rfl

theorem votersOf_keys (b : BlockID) (votes : List (Option Vote)) (vals : List Validator)
    (h : votes.length = vals.length) : (votersOf b votes vals).map (·.1) =
      ValidatorSet.selectedKeys (votes.map fun v => v.any (·.blockID == b)) vals := by
  induction votes generalizing vals with
  | nil => rfl
  | cons v _ ih =>
    match vals with
    | [] => simp at h
    | val :: vals =>
      rw [votersOf_cons, List.map_append, ih vals (by simpa using h), List.map_cons,
        ValidatorSet.selectedKeys]
      rcases v with _ | w
      · rfl
      · by_cases hw : w.blockID = b <;> simp [Option.filter, hw]

theorem votersOf_signatures (b : BlockID) (votes : List (Option Vote)) (vals : List Validator)
    (h : votes.length = vals.length) : (votersOf b votes vals).map (·.2) =
      (votes.filterMap fun v => v.filter (·.blockID == b)).map (·.signature) := by
  induction votes generalizing vals with
  | nil => rfl
  | cons v _ ih =>
    match vals with
    | [] => simp at h
    | val :: vals =>
      rw [votersOf_cons, List.map_append, ih vals (by simpa using h), List.filterMap_cons]
      rcases v with _ | w
      · rfl
      · by_cases hw : w.blockID = b <;> simp [Option.filter, hw]

theorem mem_votersOf {b : BlockID} {votes : List (Option Vote)} {vals : List Validator}
    {s : Bytes × Bytes} (h : s ∈ votersOf b votes vals) :
    ∃ (i : Nat) (v : Vote) (val : Validator), votes[i]? = some (some v) ∧ vals[i]? = some val ∧
      v.blockID = b ∧ s = (val.pubKey, v.signature) := by
  obtain ⟨x, hx, hs⟩ := List.mem_filterMap.1 h
  obtain ⟨v, hv, rfl⟩ := Option.map_eq_some_iff.1 hs
  obtain ⟨hxv, hb⟩ := Option.filter_eq_some_iff.1 hv
  obtain ⟨i, hi⟩ := List.mem_iff_getElem?.1 hx
  obtain ⟨h₁, h₂⟩ := List.getElem?_zip_eq_some.1 hi
  exact ⟨i, v, x.2, by rw [h₁, hxv], h₂, by simpa using hb, rfl⟩

/-! ## The majority has a vote of its own -/

namespace VoteSet

variable {lib : Neatlib} {vs vs' : VoteSet} {vote : Vote} {val : Validator} {b : BlockID}

/-- Some canonical vote is for the very block id of the majority. -/
def MajorityVoted (vs : VoteSet) : Prop :=
  ∀ b, vs.maj23 = some b → ∃ i v, vs.canonical i = some v ∧ v.blockID = b

/-- A canonical vote with the key of the majority is never replaced: the set has it already. -/
theorem canonical_stored_of_maj23 (ht : vs.Tallied lib) (ha : vs.Accepts lib vote val) {i : Nat}
    {v : Vote} (hmaj : vs.maj23 = some b) (hv : vs.canonical i = some v) (hb : v.blockID = b)
    (p : Int) : (vs.stored lib vote p).canonical i = some v := by
  rw [canonical_stored (ht.lt_length ha)]
  split
  · rename_i hst
    obtain ⟨rfl, hst⟩ := hst
    rw [stores, hv, hmaj] at hst
    have hkey : b.key lib = vote.blockID.key lib := by simpa using hst
    exact absurd (hb ▸ hkey) ((getVote_eq_none.1 ha.new).1 v hv)
  · exact hv

theorem MajorityVoted.afterVote (h : vs.MajorityVoted) (ht : vs.Tallied lib)
    (ha : vs.Accepts lib vote val) : (vs.afterVote lib vote val.votingPower).MajorityVoted := by
  intro b hb
  rw [VoteSet.afterVote] at hb ⊢
  split
  · rename_i hun
    rw [if_pos hun, stored_maj23] at hb
    obtain ⟨i, v, hv, hvb⟩ := h b hb
    exact ⟨i, v, canonical_stored_of_maj23 ht ha hb hv hvb _, hvb⟩
  · rename_i hun
    rw [if_neg hun] at hb
    by_cases hcross : vs.Crosses lib vote val.votingPower
    · -- the vote that makes the majority is counted for it, and copied
      rw [counted_maj23_of_crosses hcross] at hb
      have hblock := ht.withVote ha
      have hlen := ha.lt_size.trans_eq (ht.tracked (vote.blockID.key lib)).length.symm
      refine ⟨vote.validatorIndex, vote, ?_, Option.some.inj hb⟩
      rw [canonical, counted_votes_of_crosses hcross,
        getD_copyVotes (hblock.length.trans (ht.stored ha).length.symm), ha.withVote_eq,
        getD_set_some hlen, if_pos rfl, Option.some_or]
    · rw [counted_maj23_of_not_crosses hcross] at hb
      obtain ⟨i, v, hv, hvb⟩ := h b hb
      refine ⟨i, v, ?_, hvb⟩
      rw [counted_canonical_of_not_crosses hcross]
      exact canonical_stored_of_maj23 ht ha hb hv hvb _

theorem MajorityVoted.call (h : vs.MajorityVoted) (ht : vs.Tallied lib) {c : Call}
    (hc : vs.call lib c = .ok vs') : vs'.MajorityVoted := by
  rcases ht.call_cases hc with rfl | ⟨_, _, -, ha, rfl⟩ | ⟨peerID, blockID, -, rfl⟩
  · exact h
  · exact h.afterVote ht ha
  · obtain ⟨hmaj, hvotes, -⟩ := setPeerMaj23_fields lib vs peerID blockID
    intro b hb
    simp only [canonical, hvotes]
    exact h b (hmaj.symm.trans hb)

theorem MajorityVoted.calls (h : vs.MajorityVoted) (ht : vs.Tallied lib) {cs : List Call}
    (hrun : vs.calls lib cs = .ok vs') : vs'.MajorityVoted := by
  refine (calls_induction (P := fun v ↦ v.Tallied lib ∧ v.MajorityVoted) ?_ ⟨ht, h⟩ hrun).2
  rintro v _ _ ⟨hv, hvm⟩ hc
  exact ⟨hv.call hc, hvm.call hv hc⟩

/-! ## Votes whose keys tell their blocks apart -/

/-- Votes of the set with the same key are for the same block id. -/
def KeysApart (lib : Neatlib) (vs : VoteSet) : Prop :=
  ∀ v w, vs.Holds v → vs.Holds w → v.blockID.key lib = w.blockID.key lib → v.blockID = w.blockID

/-- If the set accepts the vote, no vote of the set with its key is for another block id. -/
def TellsApart (lib : Neatlib) (vs : VoteSet) (vote : Vote) : Prop :=
  (∃ val, vs.Accepts lib vote val) →
    ∀ w, vs.Holds w → w.blockID.key lib = vote.blockID.key lib → w.blockID = vote.blockID

theorem KeysApart.addVote (h : vs.KeysApart lib) (hvote : vs.TellsApart lib vote) {added : Bool}
    {err : Option VoteError} (hadd : vs.addVote lib vote = .ok (vs', added, err)) :
    vs'.KeysApart lib := by
  rcases addVote_cases hadd with ⟨rfl, -⟩ | ⟨val, _, ha, -⟩
  · exact h
  have hapart := hvote ⟨val, ha⟩
  intro v w hv hw hkey
  rcases (addVote_holds hadd).2 v hv with hv | ⟨rfl, -⟩
  · rcases (addVote_holds hadd).2 w hw with hw | ⟨rfl, -⟩
    · exact h v w hv hw hkey
    · exact hapart v hv hkey
  · rcases (addVote_holds hadd).2 w hw with hw | ⟨rfl, -⟩
    · exact (hapart w hw hkey.symm).symm
    · rfl

theorem Holds.of_setPeerMaj23 {peerID : String} {blockID : BlockID} {v : Vote}
    (h : (vs.setPeerMaj23 lib peerID blockID).Holds v) : vs.Holds v := by
  rw [setPeerMaj23] at h
  split at h
  · exact h
  rcases h with h | ⟨key, bv, hbv, hv⟩
  · exact .inl h
  rcases update_eq_some hbv with ⟨rfl, rfl⟩ | ⟨-, hbv⟩
  · rcases hold : vs.votesByBlock (blockID.key lib) with _ | old
    · rw [hold] at hv
      simp [BlockVotes.newBlockVotes, List.mem_replicate] at hv
    · rw [hold] at hv
      exact .inr ⟨_, old, hold, hv⟩
  · exact .inr ⟨key, bv, hbv, hv⟩

/-- The condition on a call: a vote it adds is told apart. -/
def Call.TellsApart (lib : Neatlib) (vs : VoteSet) : Call → Prop
  | .addVote vote => vs.TellsApart lib vote
  | .setPeerMaj23 _ _ => True

theorem KeysApart.call (h : vs.KeysApart lib) {c : Call} (hcond : c.TellsApart lib vs)
    (hc : vs.call lib c = .ok vs') : vs'.KeysApart lib := by
  match c with
  | .addVote vote =>
    rcases hadd : vs.addVote lib vote with _ | ⟨v, _⟩
    · simp [VoteSet.call, hadd, Except.map] at hc
    · obtain rfl : v = vs' := by simpa [VoteSet.call, hadd, Except.map] using hc
      exact h.addVote hcond hadd
  | .setPeerMaj23 peerID blockID =>
    cases hc
    exact fun v w hv hw ↦ h v w hv.of_setPeerMaj23 hw.of_setPeerMaj23

theorem KeysApart.calls (h : vs.KeysApart lib) {cs : List Call}
    (hcond : ∀ before c after v, cs = before ++ c :: after → vs.calls lib before = .ok v →
      c.TellsApart lib v) (hrun : vs.calls lib cs = .ok vs') : vs'.KeysApart lib := by
  induction cs generalizing vs with
  | nil =>
    cases hrun
    exact h
  | cons c cs ih =>
    obtain ⟨v, hc, hcs⟩ := calls_cons.1 hrun
    refine ih (h.call (hcond [] c cs vs rfl rfl) hc) (fun before d after w heq hw ↦ ?_) hcs
    exact hcond (c :: before) d after w (by rw [heq]; rfl) (calls_cons.2 ⟨v, hc, hw⟩)

theorem holds_of_canonical {i : Nat} {v : Vote} (h : vs.canonical i = some v) : vs.Holds v := by
  rw [canonical, List.getD_eq_getElem?_getD] at h
  rcases hi : vs.votes[i]? with _ | _
  · simp [hi] at h
  · rw [hi, Option.getD_some] at h
    exact .inl (List.mem_iff_getElem?.2 ⟨i, by rw [hi, h]⟩)

/-- If keys tell blocks apart, the votes for the very block id of the majority reach the
threshold. -/
theorem threshold_le_votesExactly (h : vs.Consistent lib) (hkeys : vs.KeysApart lib)
    (hvoted : vs.MajorityVoted) (hmaj : vs.maj23 = some b) :
    vs.threshold ≤ weight (vs.votesExactly b) vs.valSet.powers := by
  obtain ⟨_, u, hu, hub⟩ := hvoted b hmaj
  refine (h.threshold_le_weight hmaj).trans (weight_mono h.powers fun i hi ↦ ?_)
  obtain ⟨w, hw, hkey⟩ := getElem?_votesFor.1 hi
  refine getElem?_votesExactly.2 ⟨w, hw, ?_⟩
  rw [hkeys w u (holds_of_canonical hw) (holds_of_canonical hu) (hkey.trans (by rw [hub])), hub]

end VoteSet

/-! ## The aggregate -/

/-- The aggregate that a node makes of the votes for `b`. -/
def ConsensusState.aggregateOf (cs : ConsensusState) (vs : VoteSet) (type : VoteType) (b : BlockID)
    (signature : Bytes) : SignAggr :=
  .makeSignAggr cs.height cs.round type b cs.votes.chainID
    (signBitArray cs.validators.size (majorityVotes vs b)) signature

/-- The node after it has sent an aggregate, to the others and to itself. -/
def ConsensusState.sent (cs : ConsensusState) (sa : SignAggr) : ConsensusState :=
  { cs with trace := Event.internal (.maj23SignAggr (some sa)) :: Event.signAggr sa :: cs.trace }

/-- `sendMaj23SignAggr` sends the aggregate. -/
def Sends (env : Env) (cs : ConsensusState) (type : VoteType) (sa : SignAggr) : Prop :=
  sendMaj23SignAggr env type cs = .ok () (cs.sent sa)

/-- An aggregate is sent, every node with these validators accepts it, it has a majority, and the
commit made from an aggregate of precommits verifies. -/
def CompleteAggregate (env : Env) (cs : ConsensusState) (type : VoteType) : Prop :=
  ∃ sa, Sends env cs type sa ∧ blsVerifySignAggr env.lib cs.validators sa = .ok true ∧
    sa.hasTwoThirdsMajority (some cs.validators) = true ∧
    (type = .precommit → cs.validators.verifyCommit env.lib cs.votes.chainID cs.height
      (some sa.makeCommit) = .ok none)

/-- The node's votes of a type, in its round, are the result of the calls. -/
structure Collected (env : Env) (cs : ConsensusState) (type : VoteType) (calls : List VoteSet.Call)
    (vs : VoteSet) : Prop where
  voteSet : cs.votes.getVoteSet cs.round type = some vs
  run : ∃ vs₀, VoteSet.newVoteSet cs.votes.chainID cs.height cs.round type cs.validators =
    .ok vs₀ ∧ vs₀.calls env.lib calls = .ok vs

section
variable {env : Env} {cs : ConsensusState} {type : VoteType} {calls : List VoteSet.Call}
  {vs : VoteSet} {b : BlockID}

theorem VoteSet.newVoteSet_eq {chainID : String} {height : Nat} {round : Int} {type : VoteType}
    {valSet : ValidatorSet} {vs : VoteSet}
    (h : newVoteSet chainID height round type valSet = .ok vs) :
    vs.chainID = chainID ∧ vs.height = height ∧ vs.round = round ∧ vs.type = type ∧
      vs.valSet = valSet ∧ vs.maj23 = none := by
  rw [newVoteSet] at h
  split at h
  · simp at h
  · cases h
    exact ⟨rfl, rfl, rfl, rfl, rfl, rfl⟩

section

variable (h : Collected env cs type calls vs)
include h

theorem Collected.tallied : vs.Tallied env.lib := by
  obtain ⟨_, hnew, hrun⟩ := h.run
  exact (VoteSet.Tallied.of_newVoteSet env.lib hnew).calls hrun

theorem Collected.voted : vs.MajorityVoted := by
  obtain ⟨_, hnew, hrun⟩ := h.run
  refine VoteSet.MajorityVoted.calls ?_ (VoteSet.Tallied.of_newVoteSet env.lib hnew) hrun
  intro b hb
  simp [(VoteSet.newVoteSet_eq hnew).2.2.2.2.2] at hb

/-- What the set collects is what the node asks for. -/
theorem Collected.fields :
    vs.chainID = cs.votes.chainID ∧ vs.height = cs.height ∧ vs.round = cs.round ∧
      vs.type = type ∧ vs.valSet = cs.validators := by
  obtain ⟨_, hnew, hrun⟩ := h.run
  have hsame := (VoteSet.Tallied.of_newVoteSet env.lib hnew).sameVoters_calls hrun
  obtain ⟨hchain, hheight, hround, htype, hvals, -⟩ := VoteSet.newVoteSet_eq hnew
  exact ⟨hsame.chainID.trans hchain, hsame.height.trans hheight, hsame.round.trans hround,
    hsame.type.trans htype, hsame.valSet.trans hvals⟩

theorem Collected.threshold :
    vs.threshold = loose23MajorThreshold cs.validators.powers.sum cs.round := by
  obtain ⟨-, -, hround, -, hvals⟩ := h.fields
  rw [VoteSet.threshold, hround, hvals]

/-- The bits of the aggregate. -/
theorem Collected.aggregateOf_bitArray (sig : Bytes) :
    (cs.aggregateOf vs type b sig).bitArray = some (vs.votesExactly b) := by
  rw [ConsensusState.aggregateOf, ← h.fields.2.2.2.2, signBitArray_majorityVotes h.tallied]
  rfl

theorem Collected.length_votesExactly : (vs.votesExactly b).length = cs.validators.size := by
  rw [VoteSet.votesExactly, List.length_map, h.tallied.length, h.fields.2.2.2.2]

end

section

variable (hset : cs.votes.getVoteSet cs.round type = some vs)
include hset

theorem sendMaj23SignAggr_of_some
    (hmaj : vs.maj23 = some b) (hzero : b.isZero = false) {sig : Bytes}
    (hagg : env.lib.blsSignatureAggregate ((majorityVotes vs b).map (·.signature)) = some sig) :
    sendMaj23SignAggr env type cs = .ok () (cs.sent (cs.aggregateOf vs type b sig)) := by
  simp only [sendMaj23SignAggr, get_bind_apply, hset, hmaj, hagg, hzero]
  rfl

theorem sendMaj23SignAggr_of_none
    (hmaj : vs.maj23 = some b)
    (hagg : env.lib.blsSignatureAggregate ((majorityVotes vs b).map (·.signature)) = none) :
    sendMaj23SignAggr env type cs = .ok () cs := by
  simp only [sendMaj23SignAggr, get_bind_apply, hset, hmaj, hagg]
  rfl

/-- An aggregate is sent exactly when the signatures have one. -/
theorem sends_iff (hmaj : vs.maj23 = some b) (hzero : b.isZero = false) {sa : SignAggr} :
    Sends env cs type sa ↔ ∃ sig,
      env.lib.blsSignatureAggregate ((majorityVotes vs b).map (·.signature)) = some sig ∧
        sa = cs.aggregateOf vs type b sig := by
  rw [Sends]
  rcases hagg : env.lib.blsSignatureAggregate ((majorityVotes vs b).map (·.signature)) with _ | sig
  · rw [sendMaj23SignAggr_of_none hset hmaj hagg]
    simp only [hagg, reduceCtorEq, false_and, exists_false, iff_false]
    intro h
    have htrace := congrArg (fun s : ConsensusState ↦ s.trace.length) (EStateM.Result.ok.inj h).2
    simp only [ConsensusState.sent, List.length_cons] at htrace
    omega
  · rw [sendMaj23SignAggr_of_some hset hmaj hzero hagg]
    simp only [hagg, Option.some.injEq, exists_eq_left']
    constructor
    · intro h
      have htrace := congrArg (fun s : ConsensusState ↦ s.trace) (EStateM.Result.ok.inj h).2
      simp only [ConsensusState.sent, List.cons.injEq, Event.internal.injEq,
        Msg.maj23SignAggr.injEq, Option.some.injEq] at htrace
      exact htrace.1.symm
    · rintro rfl
      rfl

end

section

variable (h : Collected env cs type calls vs)
include h

/-- Everybody in the aggregate has signed the bytes it is checked against. -/
theorem Collected.votersOf_verify {s : Bytes × Bytes}
    (hs : s ∈ votersOf b vs.votes cs.validators.validators) :
    (∃ v ∈ cs.validators.validators, v.pubKey = s.1) ∧ env.lib.verifyBytes s.1
      (env.lib.voteSignBytes ⟨cs.votes.chainID, b, cs.height, cs.round, type⟩) s.2 = true := by
  obtain ⟨hchain, hheight, hround, htype, hvals⟩ := h.fields
  obtain ⟨i, v, val, hv, hval, hb, rfl⟩ := mem_votersOf hs
  have hcan : vs.canonical i = some v := by
    rw [VoteSet.canonical, List.getD_eq_getElem?_getD, hv]
    rfl
  obtain ⟨-, ⟨h₁, h₂, h₃⟩, _, hval', hver⟩ := h.tallied.votes i v hcan
  rw [hvals, hval] at hval'
  cases hval'
  refine ⟨⟨val, List.mem_of_getElem? hval, rfl⟩, ?_⟩
  rw [Vote.signBytes, hchain, hb, h₁, h₂, h₃, hheight, hround, htype] at hver
  exact hver

/-- The signatures have an aggregate that the keys of the signers verify. -/
theorem Collected.aggregates (hmaj : vs.maj23 = some b) (hbls : BlsComplete env.lib cs.validators) :
    ∃ pk sig, cs.validators.aggrPubKey env.lib (some (vs.votesExactly b)) = some pk ∧
      env.lib.blsSignatureAggregate ((majorityVotes vs b).map (·.signature)) = some sig ∧ sig ≠ [] ∧
      env.lib.verifyBytes pk
        (env.lib.voteSignBytes ⟨cs.votes.chainID, b, cs.height, cs.round, type⟩) sig = true := by
  have hlen : vs.votes.length = cs.validators.validators.length := by
    rw [h.tallied.length, h.fields.2.2.2.2]
    rfl
  have hkeys := votersOf_keys b vs.votes cs.validators.validators hlen
  have hsigs := votersOf_signatures b vs.votes cs.validators.validators hlen
  have hne : votersOf b vs.votes cs.validators.validators ≠ [] := by
    intro hnil
    obtain ⟨i, v, hv, hb⟩ := h.voted b hmaj
    have hmem : v ∈ majorityVotes vs b := VoteSet.mem_majorityVotes.2 ⟨hb, i, hv⟩
    rw [hnil] at hsigs
    rw [majorityVotes, List.map_eq_nil_iff.1 hsigs.symm] at hmem
    simp at hmem
  obtain ⟨pk, sig, hpk, hsig, hnonempty, hver⟩ :=
    hbls _ _ hne fun s hs ↦ h.votersOf_verify hs
  refine ⟨pk, sig, ?_, ?_, hnonempty, hver⟩
  · rw [ValidatorSet.aggrPubKey]
    simp only [h.length_votesExactly, ValidatorSet.size, ne_eq, not_true_eq_false, if_false]
    rw [← hpk, hkeys]
    rfl
  · rw [← hsig, hsigs]
    rfl

/-- The validators of a node that has a majority are not empty. -/
theorem Collected.validators_ne_nil (hmaj : vs.maj23 = some b) : cs.validators.validators ≠ [] := by
  obtain ⟨i, v, hv, -⟩ := h.voted b hmaj
  obtain ⟨-, -, _, hval, -⟩ := h.tallied.votes i v hv
  rw [h.fields.2.2.2.2] at hval
  intro hnil
  simp [hnil] at hval

/-- **When the aggregate of a majority is accepted**: exactly when the votes for its very block id
reach the threshold. -/
theorem Collected.completeAggregate_iff_exact
    (hmaj : vs.maj23 = some b) (hzero : b.isZero = false)
    (hbls : BlsComplete env.lib cs.validators) :
    CompleteAggregate env cs type ↔
      vs.threshold ≤ weight (vs.votesExactly b) cs.validators.powers := by
  have htally := ValidatorSet.talliedVotingPower_of_length (h.validators_ne_nil hmaj)
    (h.length_votesExactly (b := b))
  rw [h.threshold]
  constructor
  · rintro ⟨_, hsends, -, htwo, -⟩
    obtain ⟨sig, -, rfl⟩ := (sends_iff h.voteSet hmaj hzero).1 hsends
    rw [SignAggr.hasTwoThirdsMajority, h.aggregateOf_bitArray, htally] at htwo
    exact of_decide_eq_true htwo
  · intro hthr
    obtain ⟨pk, sig, hpk, hsig, hne, hver⟩ := h.aggregates hmaj hbls
    refine ⟨cs.aggregateOf vs type b sig, (sends_iff h.voteSet hmaj hzero).2 ⟨sig, hsig, rfl⟩,
      ?_, ?_, ?_⟩
    · rw [blsVerifySignAggr,
        if_neg (by simpa [ConsensusState.aggregateOf, SignAggr.makeSignAggr] using hne),
        h.aggregateOf_bitArray, htally]
      simp only [hpk]
      rw [if_neg (by simpa [ConsensusState.aggregateOf, SignAggr.makeSignAggr] using hver)]
      exact congrArg Except.ok (decide_eq_true hthr)
    · rw [SignAggr.hasTwoThirdsMajority, h.aggregateOf_bitArray, htally]
      exact decide_eq_true hthr
    · rintro rfl
      refine ValidatorSet.verifyCommit_eq_ok_none.2 ⟨h.validators_ne_nil hmaj, rfl,
        vs.votesExactly b, pk, h.aggregateOf_bitArray sig, h.length_votesExactly, ?_, hver, hthr⟩
      exact (congrArg _ (h.aggregateOf_bitArray sig)).trans hpk

omit h in
/-- Every vote of the run is told apart from the votes that are in the set when it is added. -/
def CollectsApart (env : Env) (cs : ConsensusState) (type : VoteType)
    (calls : List VoteSet.Call) : Prop :=
  ∀ vs₀ before c after v,
    VoteSet.newVoteSet cs.votes.chainID cs.height cs.round type cs.validators = .ok vs₀ →
    calls = before ++ c :: after → vs₀.calls env.lib before = .ok v → c.TellsApart env.lib v

theorem Collected.exact_of_apart (hmaj : vs.maj23 = some b)
    (hpow : ∀ w ∈ cs.validators.powers, 0 ≤ w) (hapart : CollectsApart env cs type calls) :
    vs.threshold ≤ weight (vs.votesExactly b) cs.validators.powers := by
  obtain ⟨vs₀, hnew, hrun⟩ := h.run
  have hkeys : vs.KeysApart env.lib := by
    refine VoteSet.KeysApart.calls (fun v w hv ↦ ?_) (fun before c after v heq hv ↦ ?_) hrun
    · exact absurd hv (VoteSet.not_holds_of_newVoteSet hnew v)
    · exact hapart vs₀ before c after v hnew heq hv
  have hcons := (VoteSet.Consistent.of_newVoteSet env.lib hpow hnew).calls hrun
  rw [← h.fields.2.2.2.2]
  exact VoteSet.threshold_le_votesExactly hcons hkeys h.voted hmaj

end

end

/-- **When the aggregate of a majority is complete.**  Exactly when the votes for the very block id
of the majority reach the threshold; and they do in every run in which no vote shares its key with
an earlier vote for another block id. -/
theorem completeAggregate_iff {env : Env} {cs : ConsensusState} {type : VoteType}
    {calls : List VoteSet.Call} {vs : VoteSet} {b : BlockID} (h : Collected env cs type calls vs)
    (hmaj : vs.maj23 = some b) (hzero : b.isZero = false)
    (hbls : BlsComplete env.lib cs.validators) :
    (CompleteAggregate env cs type ↔
      vs.threshold ≤ weight (vs.votesExactly b) cs.validators.powers) ∧
    ((∀ w ∈ cs.validators.powers, 0 ≤ w) → CollectsApart env cs type calls →
      CompleteAggregate env cs type) := by
  have hexact := h.completeAggregate_iff_exact hmaj hzero hbls
  exact ⟨hexact, fun hpow hapart ↦ hexact.2 (h.exact_of_apart hmaj hpow hapart)⟩

/-! ## Two blocks with one key -/

/-- An unsigned 64-bit number as wire-go writes it, the highest byte first. -/
def wireUint64 (n : Nat) : Bytes := [7, 6, 5, 4, 3, 2, 1, 0].map fun i => (n / 256 ^ i).toUInt8

/-- A length as wire-go writes it: how many bytes it has, and those bytes. -/
def wireVarint (n : Nat) : Bytes :=
  let bytes := (wireUint64 n).dropWhile (· == 0)
  bytes.length.toUInt8 :: bytes

/-- A part-set header as wire-go writes it. -/
def wirePartSetHeader (h : PartSetHeader) : Bytes :=
  wireUint64 h.total ++ wireVarint h.hash.length ++ h.hash

namespace Collision

/-- The library, with the encoding of part-set headers that wire-go has. -/
def lib : Neatlib := { ValidatorSet.loneLib with partSetHeaderBytes := wirePartSetHeader }

/-- The environment of the proposer. -/
def env : Env := { SmallNet.env 0 with lib := lib }

/-- A block whose parts have a hash that ends in zero. -/
def block : BlockID := ⟨[7], ⟨1, [0, 0, 0, 0, 0, 0, 0, 1, 0]⟩⟩

/-- The rest of its key, read as the hash of a block whose parts have no hash. -/
def lookalike : BlockID := ⟨[7, 0, 0, 0, 0, 0, 0, 0, 1, 1, 9], ⟨1, []⟩⟩

/-- The proposer of the first round at height 5, with the votes it has collected. -/
def proposer (vs : VoteSet) : ConsensusState :=
  { SmallNet.blank [1] with
    height := 5
    validators := .fourEqual
    votes := ⟨"neatio", 5, .fourEqual, 0, fun r => if r = 0 then some ⟨vs, vs⟩ else none,
      fun _ => []⟩ }

/-- Keys are single bytes in `fourEqual`, so the toy aggregates are those of the signers. -/
theorem blsComplete : BlsComplete lib .fourEqual := by
  intro signers msg hne hsigners
  have hsplit : ∀ s ∈ signers, s.2.take 1 = s.1 ∧ s.2.drop 1 = msg ∧ s.1 ≠ [] := by
    intro s hs
    obtain ⟨⟨v, hv, hvs⟩, hver⟩ := hsigners s hs
    have hsig : s.2 = s.1 ++ msg := beq_iff_eq.1 hver
    have hone : ∀ v ∈ ValidatorSet.fourEqual.validators, v.pubKey.length = 1 := by decide
    have hlen : s.1.length = 1 := hvs ▸ hone v hv
    rw [hsig]
    exact ⟨by rw [← hlen, List.take_left], by rw [← hlen, List.drop_left],
      List.ne_nil_of_length_pos (by omega)⟩
  have hkeys : (signers.map fun s ↦ s.2).flatMap (fun sig ↦ sig.take 1) =
      (signers.map fun s ↦ s.1).flatten := by
    rw [List.flatMap_map, ← List.flatMap_def]
    exact List.flatMap_congr fun s hs ↦ (hsplit s hs).1
  obtain ⟨s, rest, rfl⟩ := List.exists_cons_of_ne_nil hne
  obtain ⟨-, hmsg, hs⟩ := hsplit s (List.mem_cons_self ..)
  refine ⟨((s :: rest).map fun s ↦ s.1).flatten, ((s :: rest).map fun s ↦ s.1).flatten ++ msg, rfl,
    ?_, fun hnil ↦ ?_, beq_iff_eq.2 rfl⟩
  · rw [← hkeys, ← hmsg]
    rfl
  · have hflat := (List.append_eq_nil_iff.1 hnil).1
    rw [List.flatten_eq_nil_iff] at hflat
    exact hs (hflat s.1 (by simp))

/-- What the proposer has after the calls, given the majority and the votes for it. -/
theorem exists_collected (calls : List VoteSet.Call) (bits : BitArray)
    (hrun : (VoteSet.fresh.calls lib calls).map (fun vs ↦ (vs.maj23, vs.votesExactly block)) =
      .ok (some block, bits)) :
    ∃ vs, Collected env (proposer vs) .prevote calls vs ∧ vs.maj23 = some block ∧
      vs.votesExactly block = bits := by
  rcases hvs : VoteSet.fresh.calls lib calls with _ | vs
  · simp [hvs, Except.map] at hrun
  · obtain ⟨hmaj, hbits⟩ : vs.maj23 = some block ∧ vs.votesExactly block = bits := by
      simpa [hvs, Except.map] using hrun
    exact ⟨vs, ⟨rfl, VoteSet.fresh, VoteSet.newVoteSet_fresh, hvs⟩, hmaj, hbits⟩

/-- Three validators vote for the block, and the aggregate is complete. -/
theorem completeAggregate_iff_unanimous :
    ∃ vs, vs.maj23 = some block ∧ CompleteAggregate env (proposer vs) .prevote := by
  obtain ⟨vs, hcol, hmaj, hbits⟩ := exists_collected [.addVote (VoteSet.ballot 0 block),
    .addVote (VoteSet.ballot 1 block), .addVote (VoteSet.ballot 2 block)]
    [true, true, true, false] (by decide +kernel)
  refine ⟨vs, hmaj, (completeAggregate_iff hcol hmaj rfl blsComplete).1.2 ?_⟩
  rw [hcol.threshold, hbits]
  have henough : loose23MajorThreshold ValidatorSet.fourEqual.powers.sum 0 ≤
      weight [true, true, true, false] ValidatorSet.fourEqual.powers := by
    decide +kernel
  exact henough

/-- Two validators vote for the block, and a third one for its lookalike. -/
def calls : List VoteSet.Call :=
  [.addVote (VoteSet.ballot 2 lookalike), .addVote (VoteSet.ballot 0 block),
    .addVote (VoteSet.ballot 1 block)]

/-- **An aggregate can be refused**: the votes have a majority for the block, but the aggregate that
the proposer sends is of two votes only. -/
theorem completeAggregate_fails :
    ∃ vs, Collected env (proposer vs) .prevote calls vs ∧ vs.maj23 = some block ∧
      block.isZero = false ∧ BlsComplete env.lib (proposer vs).validators ∧
      ¬ CompleteAggregate env (proposer vs) .prevote := by
  obtain ⟨vs, hcol, hmaj, hbits⟩ := exists_collected calls
    [true, true, false, false] (by decide +kernel)
  refine ⟨vs, hcol, hmaj, rfl, blsComplete, fun hcomplete ↦ ?_⟩
  have hthr := (hcol.completeAggregate_iff_exact hmaj rfl blsComplete).1 hcomplete
  rw [hcol.threshold, hbits] at hthr
  have hfew : ¬ loose23MajorThreshold ValidatorSet.fourEqual.powers.sum 0 ≤
      weight [true, true, false, false] ValidatorSet.fourEqual.powers := by
    decide +kernel
  exact hfew hthr

end Collision

end NeatPoS
