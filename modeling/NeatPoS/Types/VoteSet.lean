import NeatPoS.Types.ValidatorSet

/-!
# Vote sets

`types/vote_set.go`: how the proposer of a round collects the votes of one type.

A set keeps the votes twice, by validator (`votes`, with a bit array and the sum of their power) and
by block (`votesByBlock`).  A validator's first vote counts; a conflicting one is dropped, unless a
peer has announced a majority for its block, which nothing in the repository ever does.  When the
votes for one block reach the threshold, `maj23` is set and they are copied into `votes`.

What the consensus state machine needs of all this is one fact, `addVote_holds`: every vote that is
in the set afterwards was in it before, or is the vote that was handed in and is for the height,
the round and the type of the set.  What the five stores have to do with each other is the subject
of `NeatPoS.Types.Tally`.
-/

set_option autoImplicit false

namespace NeatPoS

/-- `types.blockVotes`: the votes for one block. -/
structure BlockVotes where
  peerMaj23 : Bool
  bitArray : BitArray
  votes : List (Option Vote)
  sum : Int
deriving DecidableEq, Repr

/-- `newBlockVotes`. -/
def BlockVotes.newBlockVotes (peerMaj23 : Bool) (numValidators : Nat) : BlockVotes :=
  ⟨peerMaj23, List.replicate numValidators false, List.replicate numValidators none, 0⟩

/-- `blockVotes.addVerifiedVote`. -/
def BlockVotes.addVerifiedVote (bv : BlockVotes) (vote : Vote) (votingPower : Int) : BlockVotes :=
  match bv.votes.getD vote.validatorIndex none with
  | some _ => bv
  | none =>
    { bv with
      bitArray := bv.bitArray.set vote.validatorIndex true
      votes := bv.votes.set vote.validatorIndex (some vote)
      sum := bv.sum + votingPower }

/-- Why `AddVote` fails. -/
inductive VoteError where
  /-- `Unexpected step` -/
  | unexpectedStep
  /-- `Invalid round vote validator address` -/
  | invalidValidatorAddress
  /-- `Invalid round vote signature` -/
  | invalidSignature
  /-- `Conflicting votes` -/
  | conflictingVotes (voteA voteB : Vote)
  /-- `Deal with peer giving votes from unwanted rounds` -/
  | unwantedRound
deriving DecidableEq, Repr

/-- `types.VoteSet`; the keys of `votesByBlock` are `BlockID.Key`s. -/
structure VoteSet where
  chainID : String
  height : Nat
  round : Int
  type : VoteType
  valSet : ValidatorSet
  votesBitArray : BitArray
  votes : List (Option Vote)
  sum : Int
  maj23 : Option BlockID
  votesByBlock : Bytes → Option BlockVotes
  peerMaj23s : String → Option BlockID

/-- `BlockID.Key`. -/
def BlockID.key (lib : Neatlib) (b : BlockID) : Bytes :=
  b.hash ++ lib.partSetHeaderBytes b.partsHeader

namespace VoteSet

/-- `NewVoteSet`. -/
def newVoteSet (chainID : String) (height : Nat) (round : Int) (type : VoteType)
    (valSet : ValidatorSet) : Except Panic VoteSet :=
  if height = 0 then
    .error (.panicSanity "Cannot make VoteSet for height == 0, doesn't make sense.")
  else
    .ok
      { chainID, height, round, type, valSet
        votesBitArray := List.replicate valSet.size false
        votes := List.replicate valSet.size none
        sum := 0
        maj23 := none
        votesByBlock := fun _ => none
        peerMaj23s := fun _ => none }

/-- `VoteSet.TwoThirdsMajority`, on a pointer that may be nil. -/
def twoThirdsMajority (vs : Option VoteSet) : Option BlockID := vs.bind (·.maj23)

/-- `VoteSet.HasTwoThirdsMajority`. -/
def hasTwoThirdsMajority (vs : Option VoteSet) : Bool := (twoThirdsMajority vs).isSome

/-- `VoteSet.getVote`. -/
def getVote (lib : Neatlib) (vs : VoteSet) (valIndex : Nat) (blockKey : Bytes) : Option Vote :=
  match vs.votes.getD valIndex none with
  | some existing =>
    if existing.blockID.key lib = blockKey then some existing
    else (vs.votesByBlock blockKey).bind fun bv => bv.votes.getD valIndex none
  | none => (vs.votesByBlock blockKey).bind fun bv => bv.votes.getD valIndex none

/-- Copying the votes for the majority block over the canonical ones. -/
def copyVotes : List (Option Vote) → List (Option Vote) → List (Option Vote)
  | some v :: src, _ :: dst => some v :: copyVotes src dst
  | none :: src, d :: dst => d :: copyVotes src dst
  | _, dst => dst

/-- Writing a vote into `votes` and `votesBitArray`, or not. -/
def storeVote (vs : VoteSet) (store : Bool) (vote : Vote) : VoteSet :=
  { vs with
    votes := if store then vs.votes.set vote.validatorIndex (some vote) else vs.votes
    votesBitArray :=
      if store then vs.votesBitArray.set vote.validatorIndex true else vs.votesBitArray }

/-- `VoteSet.addVerifiedVote`: the new set, whether the vote was added, and the vote it conflicts
with. -/
def addVerifiedVote (lib : Neatlib) (vs : VoteSet) (vote : Vote) (blockKey : Bytes)
    (votingPower : Int) : Except Panic (VoteSet × Bool × Option Vote) :=
  let existing := vs.votes.getD vote.validatorIndex none
  if existing.any (·.blockID == vote.blockID) then
    .error (.panicSanity "addVerifiedVote does not expect duplicate votes")
  else
    -- a conflicting vote is stored only if it is for the majority block
    let vs₁ : VoteSet :=
      { vs.storeVote (existing.isNone || vs.maj23.any (·.key lib == blockKey)) vote with
        sum := if existing.isNone then vs.sum + votingPower else vs.sum }
    let tracked := (vs.votesByBlock blockKey).getD
      (BlockVotes.newBlockVotes false vs.valSet.size)
    if existing.isSome && (vs.votesByBlock blockKey).all (fun bv => !bv.peerMaj23) then
      .ok (vs₁, false, existing)
    else
      match vs.valSet.talliedVotingPower (some tracked.bitArray) with
      | .error _ =>
        .ok ({ vs₁ with votesByBlock := Function.update vs.votesByBlock blockKey (some tracked) },
          false, existing)
      | .ok (_, _, totalVotes) =>
        let quorum := loose23MajorThreshold totalVotes vote.round
        let added := tracked.addVerifiedVote vote votingPower
        let vs₂ : VoteSet :=
          { vs₁ with votesByBlock := Function.update vs.votesByBlock blockKey (some added) }
        if tracked.sum < quorum ∧ quorum ≤ added.sum ∧ vs.maj23 = none then
          .ok ({ vs₂ with maj23 := some vote.blockID, votes := copyVotes added.votes vs₂.votes },
            true, existing)
        else .ok (vs₂, true, existing)

/-- `VoteSet.AddVote`. -/
def addVote (lib : Neatlib) (vs : VoteSet) (vote : Vote) :
    Except Panic (VoteSet × Bool × Option VoteError) :=
  if vote.validatorAddress.isEmpty then
    .error (.explicit "Validator index or address was not set in vote.")
  else if vote.height ≠ vs.height ∨ vote.round ≠ vs.round ∨ vote.type ≠ vs.type then
    .ok (vs, false, some .unexpectedStep)
  else
    match vs.valSet.validators[vote.validatorIndex]? with
    | none => .error .indexOutOfRange
    | some val =>
      if vote.validatorAddress ≠ val.address then .ok (vs, false, some .invalidValidatorAddress)
      else
        match vs.getVote lib vote.validatorIndex (vote.blockID.key lib) with
        | some existing =>
          if existing.signature = vote.signature then .ok (vs, false, none)
          else .ok (vs, false, some .invalidSignature)
        | none =>
          if !lib.verifyBytes val.pubKey (vote.signBytes lib vs.chainID) vote.signature then
            .ok (vs, false, some .invalidSignature)
          else
            match vs.addVerifiedVote lib vote (vote.blockID.key lib) val.votingPower with
            | .error e => .error e
            | .ok (vs', added, some conflicting) =>
              .ok (vs', added, some (.conflictingVotes conflicting vote))
            | .ok (vs', added, none) =>
              if !added then .error (.panicSanity "Expected to add non-conflicting vote")
              else .ok (vs', added, none)

/-- `VoteSet.SetPeerMaj23`: the first announcement of each peer counts. -/
def setPeerMaj23 (lib : Neatlib) (vs : VoteSet) (peerID : String) (blockID : BlockID) : VoteSet :=
  match vs.peerMaj23s peerID with
  | some _ => vs
  | none =>
    let votesByBlock : BlockVotes :=
      match vs.votesByBlock (blockID.key lib) with
      | some bv => { bv with peerMaj23 := true }
      | none => .newBlockVotes true vs.valSet.size
    { vs with
      peerMaj23s := Function.update vs.peerMaj23s peerID (some blockID)
      votesByBlock := Function.update vs.votesByBlock (blockID.key lib) (some votesByBlock) }

/-- `VoteSet.BitArrayByBlockID`. -/
def bitArrayByBlockID (lib : Neatlib) (vs : VoteSet) (blockID : BlockID) : Option BitArray :=
  (vs.votesByBlock (blockID.key lib)).map (·.bitArray)

/-! ## Where the votes of a set come from -/

/-- The vote is stored in the set, by its validator or by its block. -/
def Holds (vs : VoteSet) (v : Vote) : Prop :=
  some v ∈ vs.votes ∨ ∃ key bv, vs.votesByBlock key = some bv ∧ some v ∈ bv.votes

/-- The sets collect the votes of the same height, round and type, of the same validators. -/
structure SameStep (vs vs' : VoteSet) : Prop where
  height : vs'.height = vs.height
  round : vs'.round = vs.round
  type : vs'.type = vs.type

theorem SameStep.refl (vs : VoteSet) : SameStep vs vs := ⟨rfl, rfl, rfl⟩

variable {vs : VoteSet} {v vote : Vote} {key : Bytes}

theorem not_holds_of_newVoteSet {chainID : String} {height : Nat} {round : Int} {type : VoteType}
    {valSet : ValidatorSet}
    (h : newVoteSet chainID height round type valSet = .ok vs) (v : Vote) : ¬ vs.Holds v := by
  rw [newVoteSet] at h
  split at h
  · simp at h
  · rw [← Except.ok.inj h, Holds]
    simp [List.mem_replicate]

theorem newVoteSet_step {chainID : String} {height : Nat} {round : Int} {type : VoteType}
    {valSet : ValidatorSet} (h : newVoteSet chainID height round type valSet = .ok vs) :
    vs.height = height ∧ vs.round = round ∧ vs.type = type := by
  rw [newVoteSet] at h
  split at h
  · simp at h
  · rw [← Except.ok.inj h]
    exact ⟨rfl, rfl, rfl⟩

theorem mem_blockVotes_addVerifiedVote {bv : BlockVotes} {p : Int}
    (h : some v ∈ (bv.addVerifiedVote vote p).votes) : some v ∈ bv.votes ∨ v = vote := by
  rw [BlockVotes.addVerifiedVote] at h
  split at h
  · exact .inl h
  · rcases List.mem_or_eq_of_mem_set h with hmem | heq
    · exact .inl hmem
    · exact .inr (Option.some.inj heq)

theorem mem_copyVotes {x : Option Vote} {src dst : List (Option Vote)}
    (h : x ∈ copyVotes src dst) : x ∈ src ∨ x ∈ dst := by
  induction src generalizing dst with
  | nil => exact .inr (by simpa [copyVotes] using h)
  | cons y _ ih =>
    match y, dst with
    | none, [] => simp [copyVotes] at h
    | some v, [] => simp [copyVotes] at h
    | none, d :: dst =>
      rw [copyVotes, List.mem_cons] at h
      rcases h with rfl | h
      · exact .inr (List.mem_cons_self ..)
      · rcases ih h with h | h
        · exact .inl (List.mem_cons_of_mem _ h)
        · exact .inr (List.mem_cons_of_mem _ h)
    | some v, d :: dst =>
      rw [copyVotes, List.mem_cons] at h
      rcases h with rfl | h
      · exact .inl (List.mem_cons_self ..)
      · rcases ih h with h | h
        · exact .inl (List.mem_cons_of_mem _ h)
        · exact .inr (List.mem_cons_of_mem _ h)

theorem mem_storeVote {store : Bool}
    (h : some v ∈ (vs.storeVote store vote).votes) : vs.Holds v ∨ v = vote := by
  simp only [storeVote] at h
  split at h
  · rcases List.mem_or_eq_of_mem_set h with h | h
    · exact .inl (.inl h)
    · exact .inr (Option.some.inj h)
  · exact .inl (.inl h)

/-- The votes for a block before the new one is added are votes of the set. -/
theorem holds_of_mem_tracked
    (h : some v ∈ ((vs.votesByBlock key).getD
      (BlockVotes.newBlockVotes false vs.valSet.size)).votes) : vs.Holds v := by
  cases hbv : vs.votesByBlock key with
  | none =>
    rw [hbv, Option.getD_none, BlockVotes.newBlockVotes] at h
    simp [List.mem_replicate] at h
  | some bv =>
    rw [hbv, Option.getD_some] at h
    exact .inr ⟨key, bv, hbv, h⟩

/-- Replacing the votes for one block by votes of the set and the new vote. -/
theorem Holds.of_update {vs₀ : VoteSet} {bv : BlockVotes}
    (hv : ∀ w, some w ∈ bv.votes → vs₀.Holds w ∨ w = vote)
    (hvs : some v ∈ vs.votes → vs₀.Holds v ∨ v = vote)
    (hby : vs.votesByBlock = Function.update vs₀.votesByBlock key (some bv))
    (h : vs.Holds v) : vs₀.Holds v ∨ v = vote := by
  rcases h with h | ⟨k, b, hk, hb⟩
  · exact hvs h
  rw [hby] at hk
  by_cases hkey : k = key
  · subst hkey
    rw [Function.update_self] at hk
    rw [← Option.some.inj hk] at hb
    exact hv v hb
  · rw [Function.update_of_ne hkey] at hk
    exact .inl (.inr ⟨k, b, hk, hb⟩)

theorem addVerifiedVote_holds {lib : Neatlib} {vs' : VoteSet}
    {p : Int} {added : Bool} {c : Option Vote}
    (h : vs.addVerifiedVote lib vote key p = .ok (vs', added, c)) :
    SameStep vs vs' ∧ ∀ v, vs'.Holds v → vs.Holds v ∨ v = vote := by
  simp only [addVerifiedVote] at h
  split at h
  · simp at h
  split at h
  · simp only [Except.ok.injEq, Prod.mk.injEq] at h
    obtain ⟨rfl, -⟩ := h
    refine ⟨⟨rfl, rfl, rfl⟩, fun v hv ↦ ?_⟩
    rcases hv with hv | hv
    · exact mem_storeVote hv
    · exact .inl (.inr hv)
  · have htracked : ∀ w, some w ∈ (((vs.votesByBlock key).getD
        (BlockVotes.newBlockVotes false vs.valSet.size)).addVerifiedVote vote p).votes →
        vs.Holds w ∨ w = vote := fun w hw ↦
      (mem_blockVotes_addVerifiedVote hw).imp holds_of_mem_tracked id
    split at h
    · simp only [Except.ok.injEq, Prod.mk.injEq] at h
      obtain ⟨rfl, -⟩ := h
      exact ⟨⟨rfl, rfl, rfl⟩, fun v ↦ Holds.of_update
        (fun w hw ↦ .inl (holds_of_mem_tracked hw)) mem_storeVote rfl⟩
    · split at h
      · simp only [Except.ok.injEq, Prod.mk.injEq] at h
        obtain ⟨rfl, -⟩ := h
        refine ⟨⟨rfl, rfl, rfl⟩, fun v ↦ Holds.of_update htracked (fun hm ↦ ?_) rfl⟩
        rcases mem_copyVotes hm with hm | hm
        · exact htracked v hm
        · exact mem_storeVote hm
      · simp only [Except.ok.injEq, Prod.mk.injEq] at h
        obtain ⟨rfl, -⟩ := h
        exact ⟨⟨rfl, rfl, rfl⟩, fun v ↦ Holds.of_update htracked mem_storeVote rfl⟩

/-- **A vote set invents no votes.** -/
theorem addVote_holds {lib : Neatlib} {vs' : VoteSet} {added : Bool}
    {err : Option VoteError} (h : vs.addVote lib vote = .ok (vs', added, err)) :
    SameStep vs vs' ∧ ∀ v, vs'.Holds v → vs.Holds v ∨
      v = vote ∧ vote.height = vs.height ∧ vote.round = vs.round ∧ vote.type = vs.type := by
  have hsame : ∀ {a : Bool} {e : Option VoteError}, (.ok (vs, a, e) :
      Except Panic (VoteSet × Bool × Option VoteError)) = .ok (vs', added, err) →
      SameStep vs vs' ∧ ∀ v, vs'.Holds v → vs.Holds v ∨
        v = vote ∧ vote.height = vs.height ∧ vote.round = vs.round ∧ vote.type = vs.type := by
    intro a e heq
    simp only [Except.ok.injEq, Prod.mk.injEq] at heq
    obtain ⟨rfl, -⟩ := heq
    exact ⟨SameStep.refl vs, fun v hv ↦ .inl hv⟩
  simp only [addVote] at h
  split at h
  · simp at h
  split at h
  · exact hsame h
  rename_i hstep
  have hstep' : vote.height = vs.height ∧ vote.round = vs.round ∧ vote.type = vs.type := by
    refine ⟨?_, ?_, ?_⟩ <;> by_contra hne <;> exact hstep (by simp [hne])
  split at h
  · simp at h
  split at h
  · exact hsame h
  split at h
  · split at h <;> exact hsame h
  split at h
  · exact hsame h
  split at h
  · simp at h
  · rename_i vs₁ a c hadd
    simp only [Except.ok.injEq, Prod.mk.injEq] at h
    obtain ⟨rfl, -⟩ := h
    obtain ⟨hs, hh⟩ := addVerifiedVote_holds hadd
    exact ⟨hs, fun v hv ↦ (hh v hv).imp id (fun hv ↦ ⟨hv, hstep'⟩)⟩
  · rename_i vs₁ a hadd
    split at h
    · simp at h
    · simp only [Except.ok.injEq, Prod.mk.injEq] at h
      obtain ⟨rfl, -⟩ := h
      obtain ⟨hs, hh⟩ := addVerifiedVote_holds hadd
      exact ⟨hs, fun v hv ↦ (hh v hv).imp id (fun hv ↦ ⟨hv, hstep'⟩)⟩

end VoteSet

end NeatPoS
