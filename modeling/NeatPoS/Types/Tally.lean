import NeatPoS.Types.VoteSet

/-!
# What a vote set adds up to

A `VoteSet` stores the same votes in five places: by validator (`votes`, `votesBitArray` and `sum`)
and by block (`votesByBlock`, with a bit array and a sum for each block).  `Tallied` says that the
five agree, and the file proves that every call keeps it that way.

* `Accepts` collects what `AddVote` has checked when it gets to storing a vote.
* `addVerifiedVote_eq` says what happens then: the vote is `stored` by its validator, and unless it
  contradicts an earlier vote of that validator and no peer has asked for its block, it is also
  `counted` for its block.  The two sanity checks on the way never fail in a tallied set.
* `Tallied.afterVote` and `Tallied.setPeerMaj23` are the step lemmas, `Tallied.calls` the run lemma.

`addVote_returns_iff` is the first result that rests on this: exactly which votes a set survives.
The index of a vote is used to look up its validator before it is compared with anything, so a peer
that sends a large one ends the process.
-/

set_option autoImplicit false

namespace NeatPoS

open Quorum

/-! ## Votes at an index -/

variable {l : List (Option Vote)}

theorem getD_set_some {i j : Nat} {v : Vote} (hi : i < l.length) :
    (l.set i (some v)).getD j none = if i = j then some v else l.getD j none := by
  rw [List.getD_eq_getElem?_getD, List.getD_eq_getElem?_getD, List.getElem?_set]
  by_cases hij : i = j
  · rw [if_pos hij, if_pos hij, if_pos (hij ▸ hi)]
    rfl
  · rw [if_neg hij, if_neg hij]

theorem getD_replicate_none {n j : Nat} :
    (List.replicate n (none : Option Vote)).getD j none = none := by
  rw [List.getD_eq_getElem?_getD, List.getElem?_replicate]
  split <;> rfl

theorem not_getD_replicate {n j : Nat} {v : Vote} :
    ¬ (List.replicate n (none : Option Vote)).getD j none = some v := by
  rw [getD_replicate_none]
  simp

theorem getD_none_of_lt {i : Nat} (hi : i < l.length) : l.getD i none = l[i] := by
  rw [List.getD_eq_getElem?_getD, List.getElem?_eq_getElem hi, Option.getD_some]

theorem getElem?_map_isSome {i : Nat} :
    (l.map Option.isSome)[i]? = some true ↔ ∃ v, l.getD i none = some v := by
  rw [List.getElem?_map, List.getD_eq_getElem?_getD]
  rcases l[i]? with _ | v
  · simp
  · simp [Option.isSome_iff_exists]

theorem getElem?_map_isSome_of_none {i : Nat} (hi : i < l.length)
    (h : l.getD i none = none) : (l.map Option.isSome)[i]? = some false := by
  rw [getD_none_of_lt hi] at h
  rw [List.getElem?_map, List.getElem?_eq_getElem hi, h]
  rfl

namespace VoteSet

theorem length_copyVotes (src dst : List (Option Vote)) :
    (copyVotes src dst).length = dst.length := by
  induction src generalizing dst with
  | nil => rfl
  | cons s _ ih =>
    match s, dst with
    | none, [] => rfl
    | some v, [] => rfl
    | none, d :: dst => simp [copyVotes, ih]
    | some v, d :: dst => simp [copyVotes, ih]

theorem getD_copyVotes {src dst : List (Option Vote)} (h : src.length = dst.length) (i : Nat) :
    (copyVotes src dst).getD i none = (src.getD i none).or (dst.getD i none) := by
  induction src generalizing dst i with
  | nil =>
    simp [copyVotes]
  | cons s _ ih =>
    cases dst with
    | nil => simp at h
    | cons =>
      cases i with
      | zero => cases s <;> simp [copyVotes]
      | succ i => cases s <;> simpa [copyVotes] using ih (by simpa using h) i

/-- Copying votes of validators that have voted marks nobody new. -/
theorem map_isSome_copyVotes {src dst : List (Option Vote)} (h : src.length = dst.length)
    (hvoted : ∀ i v, src.getD i none = some v → ∃ w, dst.getD i none = some w) :
    (copyVotes src dst).map Option.isSome = dst.map Option.isSome := by
  refine List.ext_getElem (by simp [length_copyVotes]) fun i h₁ h₂ ↦ ?_
  have hi : i < dst.length := by simpa using h₂
  have hi' : i < (copyVotes src dst).length := by simpa using h₁
  have hcopy := getD_copyVotes h i
  rw [List.getElem_map, List.getElem_map]
  rw [getD_none_of_lt hi', getD_none_of_lt hi] at hcopy
  rw [hcopy]
  rcases hsrc : src.getD i none with _ | v
  · rfl
  · obtain ⟨w, hw⟩ := hvoted i v hsrc
    rw [getD_none_of_lt hi] at hw
    rw [hw]
    rfl

/-! ## What `AddVote` does -/

/-- `Loose23MajorThreshold` for the validators and the round of the set. -/
def threshold (vs : VoteSet) : Int := loose23MajorThreshold vs.valSet.powers.sum vs.round

/-- The vote passes the checks of `AddVote`, and the set does not have it yet. -/
structure Accepts (lib : Neatlib) (vs : VoteSet) (vote : Vote) (val : Validator) : Prop where
  address : vote.validatorAddress.isEmpty = false
  height : vote.height = vs.height
  round : vote.round = vs.round
  type : vote.type = vs.type
  validator : vs.valSet.validators[vote.validatorIndex]? = some val
  named : vote.validatorAddress = val.address
  new : vs.getVote lib vote.validatorIndex (vote.blockID.key lib) = none
  signed : lib.verifyBytes val.pubKey (vote.signBytes lib vs.chainID) vote.signature = true

/-- The vote is for the height, the round and the type of the set. -/
def StepMatches (vs : VoteSet) (vote : Vote) : Prop :=
  vote.height = vs.height ∧ vote.round = vs.round ∧ vote.type = vs.type

instance (vs : VoteSet) (vote : Vote) : Decidable (vs.StepMatches vote) :=
  inferInstanceAs (Decidable (_ ∧ _))

variable {vs : VoteSet}

theorem stepMatches_iff {vote : Vote} : vs.StepMatches vote ↔
    ¬ (vote.height ≠ vs.height ∨ vote.round ≠ vs.round ∨ vote.type ≠ vs.type) := by
  rw [StepMatches]
  simp

/-- The canonical vote of a validator. -/
def canonical (vs : VoteSet) (i : Nat) : Option Vote := vs.votes.getD i none

/-- The votes for a block, before a vote for it is counted. -/
def tracked (vs : VoteSet) (key : Bytes) : BlockVotes :=
  (vs.votesByBlock key).getD (BlockVotes.newBlockVotes false vs.valSet.size)

/-- The vote becomes the canonical one: its validator has none yet, or it is for the majority. -/
def stores (lib : Neatlib) (vs : VoteSet) (vote : Vote) : Bool :=
  (vs.canonical vote.validatorIndex).isNone || vs.maj23.any (·.key lib == vote.blockID.key lib)

/-- The set with the vote stored by its validator. -/
def stored (lib : Neatlib) (vs : VoteSet) (vote : Vote) (votingPower : Int) : VoteSet :=
  { vs.storeVote (vs.stores lib vote) vote with
    sum := if (vs.canonical vote.validatorIndex).isNone then vs.sum + votingPower else vs.sum }

/-- The votes for the block of the vote, with the vote. -/
def withVote (lib : Neatlib) (vs : VoteSet) (vote : Vote) (votingPower : Int) : BlockVotes :=
  (vs.tracked (vote.blockID.key lib)).addVerifiedVote vote votingPower

/-- With the vote, its block is the first to reach the threshold. -/
def Crosses (lib : Neatlib) (vs : VoteSet) (vote : Vote) (votingPower : Int) : Prop :=
  (vs.tracked (vote.blockID.key lib)).sum < vs.threshold ∧
    vs.threshold ≤ (vs.withVote lib vote votingPower).sum ∧ vs.maj23 = none

instance (lib : Neatlib) (vs : VoteSet) (vote : Vote) (p : Int) :
    Decidable (vs.Crosses lib vote p) :=
  inferInstanceAs (Decidable (_ ∧ _))

/-- The set with the vote stored by its validator and counted for its block. -/
def counted (lib : Neatlib) (vs : VoteSet) (vote : Vote) (votingPower : Int) : VoteSet :=
  { vs.stored lib vote votingPower with
    votesByBlock := Function.update vs.votesByBlock (vote.blockID.key lib)
      (some (vs.withVote lib vote votingPower))
    maj23 := if vs.Crosses lib vote votingPower then some vote.blockID else vs.maj23
    votes :=
      if vs.Crosses lib vote votingPower then
        copyVotes (vs.withVote lib vote votingPower).votes (vs.stored lib vote votingPower).votes
      else (vs.stored lib vote votingPower).votes }

section
variable (lib : Neatlib) (vs : VoteSet) (vote : Vote) (p : Int)

@[simp] theorem stored_maj23 : (vs.stored lib vote p).maj23 = vs.maj23 := rfl

@[simp] theorem stored_votesByBlock : (vs.stored lib vote p).votesByBlock = vs.votesByBlock := rfl

@[simp] theorem counted_votesByBlock : (vs.counted lib vote p).votesByBlock =
    Function.update vs.votesByBlock (vote.blockID.key lib) (some (vs.withVote lib vote p)) := rfl

variable {lib vs vote p}

theorem counted_maj23_of_crosses (h : vs.Crosses lib vote p) :
    (vs.counted lib vote p).maj23 = some vote.blockID := if_pos h

theorem counted_maj23_of_not_crosses (h : ¬ vs.Crosses lib vote p) :
    (vs.counted lib vote p).maj23 = vs.maj23 := if_neg h

theorem counted_votes_of_crosses (h : vs.Crosses lib vote p) : (vs.counted lib vote p).votes =
    copyVotes (vs.withVote lib vote p).votes (vs.stored lib vote p).votes := if_pos h

theorem counted_canonical_of_not_crosses (h : ¬ vs.Crosses lib vote p) (i : Nat) :
    (vs.counted lib vote p).canonical i = (vs.stored lib vote p).canonical i :=
  congrArg (fun l : List (Option Vote) ↦ l.getD i none) (if_neg h)

end

/-- The vote contradicts an earlier vote of its validator, and no peer has asked for its block. -/
def Unclaimed (lib : Neatlib) (vs : VoteSet) (vote : Vote) : Prop :=
  (vs.canonical vote.validatorIndex).isSome = true ∧
    (vs.votesByBlock (vote.blockID.key lib)).all (fun bv => !bv.peerMaj23) = true

instance (lib : Neatlib) (vs : VoteSet) (vote : Vote) : Decidable (vs.Unclaimed lib vote) :=
  inferInstanceAs (Decidable (_ ∧ _))

/-- What becomes of a set that accepts a vote. -/
def afterVote (lib : Neatlib) (vs : VoteSet) (vote : Vote) (votingPower : Int) : VoteSet :=
  if vs.Unclaimed lib vote then vs.stored lib vote votingPower
  else vs.counted lib vote votingPower

variable {key : Bytes} {lib : Neatlib}

theorem getVote_eq_none {i : Nat} :
    vs.getVote lib i key = none ↔
      (∀ v, vs.canonical i = some v → v.blockID.key lib ≠ key) ∧
        ∀ bv, vs.votesByBlock key = some bv → bv.votes.getD i none = none := by
  rw [getVote, canonical]
  rcases vs.votes.getD i none with _ | w
  · rcases vs.votesByBlock key with _ | bv <;> simp
  · by_cases hkey : w.blockID.key lib = key
    · simp [hkey]
    · rcases vs.votesByBlock key with _ | bv <;> simp [hkey]

/-- Either `AddVote` leaves the set alone, or it has accepted the vote. -/
theorem addVote_cases {vs vs' : VoteSet} {vote : Vote} {added : Bool}
    {err : Option VoteError} (h : vs.addVote lib vote = .ok (vs', added, err)) :
    (vs' = vs ∧ ∀ val, ¬ vs.Accepts lib vote val) ∨
      ∃ val c, vs.Accepts lib vote val ∧
        vs.addVerifiedVote lib vote (vote.blockID.key lib) val.votingPower = .ok (vs', added, c) ∧
        err = c.map fun w => .conflictingVotes w vote := by
  simp only [addVote] at h
  split at h
  · simp at h
  rename_i haddr
  split at h
  · rename_i hstep
    obtain ⟨rfl, -⟩ := by simpa using h
    refine .inl ⟨rfl, fun val hacc ↦ ?_⟩
    simp [hacc.height, hacc.round, hacc.type] at hstep
  · rename_i hstep
    simp only [not_or, not_not] at hstep
    split at h
    · simp at h
    rename_i val hval
    split at h
    · rename_i hne
      obtain ⟨rfl, -⟩ := by simpa using h
      refine .inl ⟨rfl, fun val' hacc ↦ hne ?_⟩
      rw [hacc.named, Option.some.inj (hacc.validator.symm.trans hval)]
    · rename_i hnamed
      split at h
      · rename_i existing hex
        have hvs : vs' = vs := by
          split at h
          · obtain ⟨rfl, -⟩ := by simpa using h
            rfl
          · obtain ⟨rfl, -⟩ := by simpa using h
            rfl
        exact .inl ⟨hvs, fun val' hacc ↦ by simpa [hex] using hacc.new⟩
      · rename_i hnew
        split at h
        · rename_i hver
          obtain ⟨rfl, -⟩ := by simpa using h
          refine .inl ⟨rfl, fun val' hacc ↦ ?_⟩
          have heq : val' = val := Option.some.inj (hacc.validator.symm.trans hval)
          simp [← heq, hacc.signed] at hver
        · rename_i hver
          have hacc : vs.Accepts lib vote val :=
            ⟨by simpa using haddr, hstep.1, hstep.2.1, hstep.2.2, hval,
              by simpa using hnamed, hnew, by simpa using hver⟩
          refine .inr ⟨val, ?_⟩
          split at h
          · simp at h
          · rename_i vs₁ a c hadd
            obtain ⟨rfl, rfl, rfl⟩ := by simpa using h
            exact ⟨some c, hacc, hadd, rfl⟩
          · rename_i vs₁ a hadd
            split at h
            · simp at h
            · obtain ⟨rfl, rfl, rfl⟩ := by simpa using h
              exact ⟨none, hacc, hadd, rfl⟩

/-! ## The stores agree -/

/-- The vote at index `i` is of validator `i`, for the step of the set, and signed. -/
def Verified (lib : Neatlib) (vs : VoteSet) (i : Nat) (v : Vote) : Prop :=
  v.validatorIndex = i ∧ vs.StepMatches v ∧
    ∃ val, vs.valSet.validators[i]? = some val ∧
      lib.verifyBytes val.pubKey (v.signBytes lib vs.chainID) v.signature = true

/-- The votes for one block: the bits and the sum are those of the votes, and every voter has a
canonical vote as well. -/
structure TalliedBlock (lib : Neatlib) (vs : VoteSet) (key : Bytes) (bv : BlockVotes) : Prop where
  length : bv.votes.length = vs.valSet.size
  bitArray : bv.bitArray = bv.votes.map Option.isSome
  sum : bv.sum = weight bv.bitArray vs.valSet.powers
  votes : ∀ i v, bv.votes.getD i none = some v →
    v.blockID.key lib = key ∧ vs.Verified lib i v ∧ ∃ w, vs.canonical i = some w

/-- The stores of the set agree. -/
structure Tallied (lib : Neatlib) (vs : VoteSet) : Prop where
  length : vs.votes.length = vs.valSet.size
  votesBitArray : vs.votesBitArray = vs.votes.map Option.isSome
  sum : vs.sum = weight vs.votesBitArray vs.valSet.powers
  votes : ∀ i v, vs.canonical i = some v → vs.Verified lib i v
  block : ∀ key bv, vs.votesByBlock key = some bv → vs.TalliedBlock lib key bv

theorem Tallied.of_newVoteSet (lib : Neatlib) {chainID : String} {height : Nat} {round : Int}
    {type : VoteType} {valSet : ValidatorSet}
    (h : newVoteSet chainID height round type valSet = .ok vs) : vs.Tallied lib := by
  rw [newVoteSet] at h
  split at h
  · simp at h
  · cases h
    exact ⟨by simp, by simp, by simp, fun _ _ hv ↦ absurd hv not_getD_replicate, by simp⟩

theorem TalliedBlock.newBlockVotes (peerMaj23 : Bool) :
    vs.TalliedBlock lib key (.newBlockVotes peerMaj23 vs.valSet.size) :=
  ⟨by simp [BlockVotes.newBlockVotes], by simp [BlockVotes.newBlockVotes],
    by simp [BlockVotes.newBlockVotes], fun _ _ hv ↦ absurd hv not_getD_replicate⟩

variable {vs' : VoteSet} {vote : Vote} {val : Validator}

theorem Tallied.tracked (h : vs.Tallied lib) (key : Bytes) :
    vs.TalliedBlock lib key (vs.tracked key) := by
  rw [VoteSet.tracked]
  rcases hbv : vs.votesByBlock key with _ | bv
  · exact .newBlockVotes false
  · exact h.block key bv hbv

namespace Accepts

variable (h : vs.Accepts lib vote val)
include h

theorem verified : vs.Verified lib vote.validatorIndex vote :=
  ⟨rfl, ⟨h.height, h.round, h.type⟩, val, h.validator, h.signed⟩

theorem lt_size : vote.validatorIndex < vs.valSet.size :=
  (List.getElem?_eq_some_iff.1 h.validator).1

theorem powers : vs.valSet.powers[vote.validatorIndex]? = some val.votingPower :=
  ValidatorSet.getElem?_powers_eq_some.2 ⟨val, h.validator, rfl⟩

/-- The block of the vote has no vote of its validator yet. -/
theorem tracked_getD :
    (vs.tracked (vote.blockID.key lib)).votes.getD vote.validatorIndex none = none := by
  rw [VoteSet.tracked]
  rcases hbv : vs.votesByBlock (vote.blockID.key lib) with _ | bv
  · exact getD_replicate_none
  · exact (getVote_eq_none.1 h.new).2 bv hbv

theorem withVote_eq (p : Int) :
    vs.withVote lib vote p =
      { vs.tracked (vote.blockID.key lib) with
        bitArray := (vs.tracked (vote.blockID.key lib)).bitArray.set vote.validatorIndex true
        votes := (vs.tracked (vote.blockID.key lib)).votes.set vote.validatorIndex (some vote)
        sum := (vs.tracked (vote.blockID.key lib)).sum + p } := by
  rw [withVote, BlockVotes.addVerifiedVote, h.tracked_getD]

end Accepts

/-- **What accepting a vote comes to.**  Neither of the sanity checks fails. -/
theorem Tallied.addVerifiedVote_eq (h : vs.Tallied lib) (ha : vs.Accepts lib vote val) :
    vs.addVerifiedVote lib vote (vote.blockID.key lib) val.votingPower =
      .ok (vs.afterVote lib vote val.votingPower, !decide (vs.Unclaimed lib vote),
        vs.canonical vote.validatorIndex) := by
  have hdup : (vs.votes.getD vote.validatorIndex none).any (·.blockID == vote.blockID) = false := by
    rw [Option.any_eq_false]
    intro w hw
    have hkey := (getVote_eq_none.1 ha.new).1 w hw
    simp only [beq_eq_false_iff_ne]
    exact fun heq ↦ hkey (by rw [heq])
  have hne : vs.valSet.validators ≠ [] := by
    intro hnil
    simpa [hnil] using ha.validator
  have htracked := h.tracked (vote.blockID.key lib)
  have hlen : (vs.tracked (vote.blockID.key lib)).bitArray.length = vs.valSet.size := by
    rw [htracked.bitArray, List.length_map, htracked.length]
  rw [VoteSet.addVerifiedVote]
  simp only [hdup, Bool.false_eq_true, if_false]
  rw [afterVote]
  by_cases hun : vs.Unclaimed lib vote
  · have hcond : ((vs.votes.getD vote.validatorIndex none).isSome &&
        (vs.votesByBlock (vote.blockID.key lib)).all fun bv => !bv.peerMaj23) = true :=
      Bool.and_eq_true_iff.2 hun
    rw [if_pos hcond, if_pos hun, decide_eq_true hun]
    rfl
  · have hcond : ¬ ((vs.votes.getD vote.validatorIndex none).isSome &&
        (vs.votesByBlock (vote.blockID.key lib)).all fun bv => !bv.peerMaj23) = true :=
      fun hc ↦ hun (Bool.and_eq_true_iff.1 hc)
    rw [if_neg hcond, if_neg hun, decide_eq_false hun]
    have htally := ValidatorSet.talliedVotingPower_of_length hne hlen
    rw [VoteSet.tracked] at htally
    rw [htally]
    by_cases hcross : vs.Crosses lib vote val.votingPower
    · rw [counted, if_pos hcross, if_pos hcross]
      simp only [ha.round]
      exact if_pos hcross
    · rw [counted, if_neg hcross, if_neg hcross]
      simp only [ha.round]
      exact if_neg hcross

theorem set_true_of_getElem? {bs : List Bool} {i : Nat} (h : bs[i]? = some true) :
    bs.set i true = bs := by
  obtain ⟨hi, hb⟩ := List.getElem?_eq_some_iff.1 h
  conv_lhs => rw [← hb]
  exact List.set_getElem_self hi

theorem Tallied.lt_length (h : vs.Tallied lib) (ha : vs.Accepts lib vote val) :
    vote.validatorIndex < vs.votes.length :=
  ha.lt_size.trans_eq h.length.symm

/-- The canonical votes after a vote has been stored. -/
theorem canonical_stored (hi : vote.validatorIndex < vs.votes.length) (p : Int) (j : Nat) :
    (vs.stored lib vote p).canonical j =
      if vote.validatorIndex = j ∧ vs.stores lib vote = true then some vote else vs.canonical j := by
  show (if vs.stores lib vote then vs.votes.set vote.validatorIndex (some vote)
    else vs.votes).getD j none = _
  by_cases hs : vs.stores lib vote = true
  · rw [if_pos hs, getD_set_some hi]
    simp only [hs, and_true]
    rfl
  · rw [if_neg hs, if_neg (fun h ↦ hs h.2)]
    rfl

/-- Whoever has voted has still voted. -/
theorem exists_canonical_stored (hi : vote.validatorIndex < vs.votes.length) (p : Int) {j : Nat}
    (h : ∃ w, vs.canonical j = some w) : ∃ w, (vs.stored lib vote p).canonical j = some w := by
  rw [canonical_stored hi]
  split
  · exact ⟨vote, rfl⟩
  · exact h

theorem stores_of_canonical_eq_none (h : vs.canonical vote.validatorIndex = none) :
    vs.stores lib vote = true := by
  rw [stores, h]
  rfl

/-- The validator of an accepted vote has a canonical vote, if only this one. -/
theorem exists_canonical_stored_self (hi : vote.validatorIndex < vs.votes.length) (p : Int) :
    ∃ w, (vs.stored lib vote p).canonical vote.validatorIndex = some w := by
  rcases hex : vs.canonical vote.validatorIndex with _ | w
  · rw [canonical_stored hi, if_pos ⟨rfl, stores_of_canonical_eq_none hex⟩]
    exact ⟨vote, rfl⟩
  · exact exists_canonical_stored hi p ⟨w, hex⟩

theorem Tallied.stored_bits (h : vs.Tallied lib) (p : Int) :
    (vs.stored lib vote p).votesBitArray = (vs.stored lib vote p).votes.map Option.isSome := by
  show (if vs.stores lib vote then vs.votesBitArray.set vote.validatorIndex true
      else vs.votesBitArray) =
    (if vs.stores lib vote then vs.votes.set vote.validatorIndex (some vote)
      else vs.votes).map Option.isSome
  split
  · rw [List.map_set, ← h.votesBitArray]
    rfl
  · exact h.votesBitArray

theorem Tallied.stored_sum (h : vs.Tallied lib) (ha : vs.Accepts lib vote val) :
    (vs.stored lib vote val.votingPower).sum =
      weight (vs.stored lib vote val.votingPower).votesBitArray vs.valSet.powers := by
  show (if (vs.canonical vote.validatorIndex).isNone then vs.sum + val.votingPower else vs.sum) =
    weight (if vs.stores lib vote then vs.votesBitArray.set vote.validatorIndex true
      else vs.votesBitArray) vs.valSet.powers
  rcases hex : vs.canonical vote.validatorIndex with _ | w
  · -- a first vote adds the power of its validator
    have hbit : vs.votesBitArray[vote.validatorIndex]? = some false := by
      rw [h.votesBitArray]
      exact getElem?_map_isSome_of_none (h.lt_length ha) hex
    rw [if_pos Option.isNone_none, if_pos (stores_of_canonical_eq_none hex),
      weight_set_true hbit ha.powers, h.sum]
  · -- a later one, stored or not, finds its bit set
    have hbit : vs.votesBitArray[vote.validatorIndex]? = some true := by
      rw [h.votesBitArray]
      exact getElem?_map_isSome.2 ⟨w, hex⟩
    rw [set_true_of_getElem? hbit, ite_self, if_neg (by simp), h.sum]

theorem Tallied.stored (h : vs.Tallied lib) (ha : vs.Accepts lib vote val) :
    (vs.stored lib vote val.votingPower).Tallied lib where
  length := by
    show (if vs.stores lib vote then vs.votes.set vote.validatorIndex (some vote)
      else vs.votes).length = _
    split
    · rw [List.length_set, h.length]
      rfl
    · exact h.length
  votesBitArray := h.stored_bits val.votingPower
  sum := h.stored_sum ha
  votes := by
    intro i v hv
    rw [canonical_stored (h.lt_length ha)] at hv
    split at hv
    · rename_i hi
      cases hv
      exact hi.1 ▸ ha.verified
    · exact h.votes i v hv
  block := by
    intro key bv hbv
    have hblock := h.block key bv hbv
    refine ⟨hblock.length, hblock.bitArray, hblock.sum, fun i v hv ↦ ?_⟩
    obtain ⟨hkey, hver, hcan⟩ := hblock.votes i v hv
    exact ⟨hkey, hver, exists_canonical_stored (h.lt_length ha) _ hcan⟩

theorem update_eq_some {f : Bytes → Option BlockVotes} {key k : Bytes} {bv b : BlockVotes}
    (h : Function.update f key (some bv) k = some b) : k = key ∧ b = bv ∨ k ≠ key ∧ f k = some b := by
  by_cases hk : k = key
  · subst hk
    rw [Function.update_self] at h
    exact .inl ⟨rfl, (Option.some.inj h).symm⟩
  · rw [Function.update_of_ne hk] at h
    exact .inr ⟨hk, h⟩

/-- Replacing the votes for one block by others that add up. -/
theorem Tallied.withBlock (h : vs.Tallied lib) {bv : BlockVotes}
    (hbv : vs.TalliedBlock lib key bv) (peers : String → Option BlockID) :
    Tallied lib { vs with
      votesByBlock := Function.update vs.votesByBlock key (some bv), peerMaj23s := peers } where
  length := h.length
  votesBitArray := h.votesBitArray
  sum := h.sum
  votes := h.votes
  block := by
    intro k b hb
    have hblock : vs.TalliedBlock lib k b := by
      rcases update_eq_some hb with ⟨rfl, rfl⟩ | ⟨-, hb⟩
      · exact hbv
      · exact h.block k b hb
    exact ⟨hblock.length, hblock.bitArray, hblock.sum, hblock.votes⟩

/-- Copying the votes for one block over the canonical ones. -/
theorem Tallied.withMajority (h : vs.Tallied lib) {bv : BlockVotes}
    (hbv : vs.votesByBlock key = some bv) (maj23 : Option BlockID) :
    Tallied lib { vs with maj23, votes := copyVotes bv.votes vs.votes } := by
  have hblock := h.block key bv hbv
  have hlen : bv.votes.length = vs.votes.length := hblock.length.trans h.length.symm
  have hmarks := map_isSome_copyVotes hlen fun i v hv ↦ (hblock.votes i v hv).2.2
  have hcan : ∀ i, (∃ w, vs.canonical i = some w) →
      ∃ w, (copyVotes bv.votes vs.votes).getD i none = some w := by
    rintro i ⟨w, hw⟩
    rw [getD_copyVotes hlen]
    rcases bv.votes.getD i none with _ | x
    · exact ⟨w, hw⟩
    · exact ⟨x, rfl⟩
  refine ⟨(length_copyVotes _ _).trans h.length, h.votesBitArray.trans hmarks.symm, h.sum, ?_, ?_⟩
  · intro i v hv
    rw [canonical, getD_copyVotes hlen] at hv
    rcases hx : bv.votes.getD i none with _ | x
    · rw [hx] at hv
      exact h.votes i v hv
    · rw [hx] at hv
      obtain rfl := Option.some.inj hv
      exact (hblock.votes i x hx).2.1
  · intro k b hb
    have hb := h.block k b hb
    refine ⟨hb.length, hb.bitArray, hb.sum, fun i v hv ↦ ?_⟩
    obtain ⟨hkey, hver, hw⟩ := hb.votes i v hv
    exact ⟨hkey, hver, hcan i hw⟩

/-- The votes for the block of an accepted vote add up, with the vote. -/
theorem Tallied.withVote (h : vs.Tallied lib) (ha : vs.Accepts lib vote val) :
    (vs.stored lib vote val.votingPower).TalliedBlock lib (vote.blockID.key lib)
      (vs.withVote lib vote val.votingPower) := by
  have htracked := h.tracked (vote.blockID.key lib)
  have hi : vote.validatorIndex < (vs.tracked (vote.blockID.key lib)).votes.length :=
    ha.lt_size.trans_eq htracked.length.symm
  rw [ha.withVote_eq]
  refine ⟨?_, ?_, ?_, ?_⟩
  · rw [List.length_set, htracked.length]
    rfl
  · rw [List.map_set, ← htracked.bitArray]
    rfl
  · have hbit : (vs.tracked (vote.blockID.key lib)).bitArray[vote.validatorIndex]? = some false := by
      rw [htracked.bitArray]
      exact getElem?_map_isSome_of_none hi ha.tracked_getD
    rw [htracked.sum]
    exact (weight_set_true hbit ha.powers).symm
  · intro i v hv
    rw [getD_set_some hi] at hv
    split at hv
    · rename_i hi'
      cases hv
      exact ⟨rfl, hi' ▸ ha.verified, hi' ▸ exists_canonical_stored_self (h.lt_length ha) _⟩
    · obtain ⟨hkey, hver, hw⟩ := htracked.votes i v hv
      exact ⟨hkey, hver, exists_canonical_stored (h.lt_length ha) _ hw⟩

theorem Tallied.afterVote (h : vs.Tallied lib) (ha : vs.Accepts lib vote val) :
    (vs.afterVote lib vote val.votingPower).Tallied lib := by
  rw [VoteSet.afterVote]
  split
  · exact h.stored ha
  have hblock := (h.stored ha).withBlock (h.withVote ha) vs.peerMaj23s
  by_cases hcross : vs.Crosses lib vote val.votingPower
  · rw [counted, if_pos hcross, if_pos hcross]
    exact hblock.withMajority (Function.update_self ..) (some vote.blockID)
  · rw [counted, if_neg hcross, if_neg hcross]
    exact hblock

theorem Tallied.setPeerMaj23 (h : vs.Tallied lib) (peerID : String) (blockID : BlockID) :
    (vs.setPeerMaj23 lib peerID blockID).Tallied lib := by
  rw [VoteSet.setPeerMaj23]
  split
  · exact h
  refine h.withBlock ?_ _
  split
  · rename_i bv hbv
    have hblock := h.block _ bv hbv
    exact ⟨hblock.length, hblock.bitArray, hblock.sum, hblock.votes⟩
  · exact .newBlockVotes true

/-! ## Runs -/

/-- A call that changes a vote set. -/
inductive Call where
  | addVote (vote : Vote)
  | setPeerMaj23 (peerID : String) (blockID : BlockID)

/-- The set after a call, unless it panics. -/
def call (lib : Neatlib) (vs : VoteSet) : Call → Except Panic VoteSet
  | .addVote vote => (vs.addVote lib vote).map (·.1)
  | .setPeerMaj23 peerID blockID => .ok (vs.setPeerMaj23 lib peerID blockID)

/-- The set after a sequence of calls. -/
def calls (lib : Neatlib) (vs : VoteSet) (cs : List Call) : Except Panic VoteSet :=
  cs.foldlM (call lib) vs

theorem calls_append {cs ds : List Call} :
    vs.calls lib (cs ++ ds) = .ok vs' ↔ ∃ v, vs.calls lib cs = .ok v ∧ v.calls lib ds = .ok vs' := by
  rw [calls, List.foldlM_append]
  show (vs.calls lib cs >>= fun v ↦ v.calls lib ds) = .ok vs' ↔ _
  rcases vs.calls lib cs with _ | v
  · simp [bind, Except.bind]
  · simp [bind, Except.bind]

variable {cs : List Call}

theorem calls_cons {c : Call} :
    vs.calls lib (c :: cs) = .ok vs' ↔ ∃ v, vs.call lib c = .ok v ∧ v.calls lib cs = .ok vs' := by
  show (vs.call lib c >>= fun v ↦ v.calls lib cs) = .ok vs' ↔ _
  rcases vs.call lib c with _ | v
  · simp [bind, Except.bind]
  · simp [bind, Except.bind]

/-- What every call keeps, a run keeps. -/
theorem calls_induction {P : VoteSet → Prop}
    (step : ∀ {v v' c}, P v → v.call lib c = .ok v' → P v') (h : P vs)
    (hrun : vs.calls lib cs = .ok vs') : P vs' := by
  induction cs generalizing vs with
  | nil =>
    cases hrun
    exact h
  | cons _ _ ih =>
    obtain ⟨v, hc, hcs⟩ := calls_cons.1 hrun
    exact ih (step h hc) hcs

/-- What a call does to a set whose stores agree. -/
theorem Tallied.call_cases (h : vs.Tallied lib) {c : Call} (hc : vs.call lib c = .ok vs') :
    vs' = vs ∨
      (∃ vote val, c = .addVote vote ∧ vs.Accepts lib vote val ∧
        vs' = vs.afterVote lib vote val.votingPower) ∨
      ∃ peerID blockID, c = .setPeerMaj23 peerID blockID ∧
        vs' = vs.setPeerMaj23 lib peerID blockID := by
  match c with
  | .addVote vote =>
    rcases hadd : vs.addVote lib vote with _ | ⟨v, _⟩
    · simp [call, hadd, Except.map] at hc
    obtain rfl : v = vs' := by simpa [call, hadd, Except.map] using hc
    rcases addVote_cases hadd with ⟨rfl, -⟩ | ⟨val, c, ha, hver, -⟩
    · exact .inl rfl
    · rw [h.addVerifiedVote_eq ha] at hver
      obtain ⟨rfl, -⟩ := by simpa using hver
      exact .inr (.inl ⟨vote, val, rfl, ha, rfl⟩)
  | .setPeerMaj23 peerID blockID =>
    exact .inr (.inr ⟨peerID, blockID, rfl, (Except.ok.inj hc).symm⟩)

theorem Tallied.call_addVote (h : vs.Tallied lib) (ha : vs.Accepts lib vote val)
    (hc : vs.call lib (.addVote vote) = .ok vs') :
    vs' = vs.afterVote lib vote val.votingPower := by
  rcases hadd : vs.addVote lib vote with _ | ⟨v, _⟩
  · simp [VoteSet.call, hadd, Except.map] at hc
  obtain rfl : v = vs' := by simpa [VoteSet.call, hadd, Except.map] using hc
  rcases addVote_cases hadd with ⟨-, hno⟩ | ⟨_, _, ha', hver, -⟩
  · exact absurd ha (hno val)
  · rw [h.addVerifiedVote_eq ha', Option.some.inj (ha'.validator.symm.trans ha.validator)] at hver
    exact ((Prod.mk.injEq .. ▸ Except.ok.inj hver).1).symm

theorem Tallied.call (h : vs.Tallied lib) {c : Call} (hc : vs.call lib c = .ok vs') :
    vs'.Tallied lib := by
  rcases h.call_cases hc with rfl | ⟨_, _, -, ha, rfl⟩ | ⟨peerID, blockID, -, rfl⟩
  · exact h
  · exact h.afterVote ha
  · exact h.setPeerMaj23 peerID blockID

/-- **The stores agree in every state that is reached.** -/
theorem Tallied.calls (h : vs.Tallied lib) (hrun : vs.calls lib cs = .ok vs') : vs'.Tallied lib :=
  calls_induction (fun h hc ↦ h.call hc) h hrun

/-- The set has been made by `NewVoteSet` and changed by its methods only. -/
def Built (lib : Neatlib) (vs : VoteSet) : Prop :=
  ∃ chainID height round type valSet vs₀ cs,
    newVoteSet chainID height round type valSet = .ok vs₀ ∧ vs₀.calls lib cs = .ok vs

theorem Built.tallied (h : vs.Built lib) : vs.Tallied lib := by
  obtain ⟨_, _, _, _, _, _, _, hnew, hrun⟩ := h
  exact (Tallied.of_newVoteSet lib hnew).calls hrun

/-! ## Which votes a set survives -/

/-- `AddVote` returns, and if it reports an error other than a conflict, the set is as before. -/
def AddsSafely (lib : Neatlib) (vs : VoteSet) (vote : Vote) : Prop :=
  ∃ vs' added err, vs.addVote lib vote = .ok (vs', added, err) ∧
    (err ≠ none → (∀ a b, err ≠ some (.conflictingVotes a b)) → vs' = vs)

/-- An error other than a conflict changes nothing. -/
theorem eq_of_addVote_error {added : Bool} {err : Option VoteError}
    (h : vs.addVote lib vote = .ok (vs', added, err)) (herr : err ≠ none)
    (hconflict : ∀ a b, err ≠ some (.conflictingVotes a b)) : vs' = vs := by
  rcases addVote_cases h with ⟨rfl, -⟩ | ⟨_, c, -, -, rfl⟩
  · rfl
  · rcases c with _ | w
    · exact absurd rfl herr
    · exact absurd rfl (hconflict w vote)

theorem Tallied.addVote_returns (h : vs.Tallied lib) (haddr : vote.validatorAddress ≠ [])
    (hidx : vs.StepMatches vote → vote.validatorIndex < vs.valSet.size) :
    ∃ vs' added err, vs.addVote lib vote = .ok (vs', added, err) := by
  rw [VoteSet.addVote, if_neg (by simpa using haddr)]
  by_cases hstep : vs.StepMatches vote
  · obtain ⟨val, hval⟩ : ∃ val, vs.valSet.validators[vote.validatorIndex]? = some val :=
      ⟨_, List.getElem?_eq_getElem (hidx hstep)⟩
    rw [if_neg (stepMatches_iff.1 hstep), hval]
    dsimp only
    split
    · exact ⟨_, _, _, rfl⟩
    rename_i hnamed
    split
    · split <;> exact ⟨_, _, _, rfl⟩
    rename_i hnew
    split
    · exact ⟨_, _, _, rfl⟩
    rename_i hver
    have ha : vs.Accepts lib vote val :=
      ⟨by simpa using haddr, hstep.1, hstep.2.1, hstep.2.2, hval, by simpa using hnamed,
        hnew, by simpa using hver⟩
    rw [h.addVerifiedVote_eq ha]
    rcases hex : vs.canonical vote.validatorIndex with _ | _
    · -- a first vote is never dropped
      have hun : ¬ vs.Unclaimed lib vote := fun hun ↦ by simpa [hex] using hun.1
      simp [hun]
    · exact ⟨_, _, _, rfl⟩
  · refine ⟨vs, false, some .unexpectedStep, if_pos ?_⟩
    by_contra hdiff
    exact hstep (stepMatches_iff.2 hdiff)

/-- **Which votes a set survives.**  `AddVote` returns, and changes nothing when it reports an error
other than a conflict, exactly when the vote names an address and, if it is for the step of the
set, its index is that of a validator. -/
theorem addVote_returns_iff {lib : Neatlib} {vs : VoteSet} (h : vs.Built lib) (vote : Vote) :
    vs.AddsSafely lib vote ↔
      vote.validatorAddress ≠ [] ∧ (vs.StepMatches vote → vote.validatorIndex < vs.valSet.size) := by
  constructor
  · rintro ⟨vs', added, err, hadd, -⟩
    rw [addVote] at hadd
    split at hadd
    · simp at hadd
    rename_i haddr
    refine ⟨by simpa using haddr, fun hstep ↦ ?_⟩
    rw [if_neg (stepMatches_iff.1 hstep)] at hadd
    by_contra hge
    rw [List.getElem?_eq_none (Nat.le_of_not_lt hge)] at hadd
    simp at hadd
  · rintro ⟨haddr, hidx⟩
    obtain ⟨vs', added, err, hadd⟩ := h.tallied.addVote_returns haddr hidx
    exact ⟨vs', added, err, hadd, eq_of_addVote_error hadd⟩

/-- An empty set for the prevotes of the first round at height 5, of four equal validators. -/
def fresh : VoteSet :=
  ⟨"neatio", 5, 0, .prevote, .fourEqual, [false, false, false, false], [none, none, none, none], 0,
    none, fun _ => none, fun _ => none⟩

theorem newVoteSet_fresh : newVoteSet "neatio" 5 0 .prevote .fourEqual = .ok fresh := rfl

theorem built_fresh (lib : Neatlib) : fresh.Built lib :=
  ⟨_, _, _, _, _, fresh, [], newVoteSet_fresh, rfl⟩

/-- A vote for the step of `fresh` that nobody has signed. -/
def stray (address : Bytes) (index : Nat) : Vote := ⟨address, index, 5, 0, .prevote, .zero, []⟩

theorem addVote_returns_iff_stray :
    fresh.AddsSafely ValidatorSet.loneLib (stray [1] 0) ↔
      [1] ≠ ([] : Bytes) ∧ (fresh.StepMatches (stray [1] 0) → 0 < fresh.valSet.size) :=
  addVote_returns_iff (built_fresh _) (stray [1] 0)

/-- **A vote can end the process**: by its index, and by having no address. -/
theorem addVote_panics :
    newVoteSet "neatio" 5 0 .prevote .fourEqual = .ok fresh ∧
      (∀ lib, fresh.addVote lib (stray [1] 4) = .error .indexOutOfRange) ∧
      ∀ lib, fresh.addVote lib (stray [] 0) =
        .error (.explicit "Validator index or address was not set in vote.") :=
  ⟨rfl, fun _ ↦ rfl, fun _ ↦ rfl⟩

end VoteSet

end NeatPoS
