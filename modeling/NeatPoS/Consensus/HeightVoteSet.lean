import NeatPoS.Types.VoteSet

/-!
# The votes and the aggregates of one height

`consensus/height_vote_set.go` and `consensus/height_sign_aggr.go`: a vote set and a pair of
signature aggregates for every tracked round of the height.

The two Go maps from rounds are functions `Int → Option _`, and the loops that add or delete the
rounds of an interval are written as one update of the function.  `addRound`'s check that the round
does not exist cannot fail after either loop, so only the checks at the head of `SetRound` and
`ResetTop2Round` can panic.

An aggregate is stored under its own round and type, at most once, and only while that round is
tracked; `getSignAggr_addSignAggr` is the spec.
-/

set_option autoImplicit false

namespace NeatPoS

/-! ## Signature aggregates -/

/-- `RoundVoteSignAggr`. -/
structure RoundVoteSignAggr where
  prevotes : Option SignAggr
  precommits : Option SignAggr
deriving DecidableEq, Repr

/-- The aggregate of one type, for the two types of votes there are. -/
def RoundVoteSignAggr.get : Option RoundVoteSignAggr → VoteType → Option SignAggr
  | none, _ => none
  | some rvs, .prevote => rvs.prevotes
  | some rvs, .precommit => rvs.precommits
  | some _, .other _ => none

/-- Storing an aggregate under its type. -/
def RoundVoteSignAggr.put (rvs : RoundVoteSignAggr) (sa : SignAggr) : RoundVoteSignAggr :=
  match sa.type with
  | .prevote => { rvs with prevotes := some sa }
  | .precommit => { rvs with precommits := some sa }
  | .other _ => rvs

@[simp] theorem RoundVoteSignAggr.get_none (t : VoteType) : get none t = none := by
  cases t <;> rfl

@[simp] theorem RoundVoteSignAggr.get_empty (t : VoteType) : get (some ⟨none, none⟩) t = none := by
  cases t <;> rfl

theorem RoundVoteSignAggr.get_put (rvs : RoundVoteSignAggr) (sa : SignAggr) (t : VoteType)
    (hv : sa.type.isVoteTypeValid = true) :
    get (some (rvs.put sa)) t = if t = sa.type then some sa else get (some rvs) t := by
  cases hs : sa.type with
  | prevote | precommit => cases t <;> simp [get, put, hs]
  | other => simp [hs, VoteType.isVoteTypeValid] at hv

/-- `HeightVoteSignAggr`, without the chain id, the height and the validators, which it keeps but
never reads. -/
structure HeightVoteSignAggr where
  /-- The highest tracked round. -/
  round : Int
  roundVoteSignAggrs : Int → Option RoundVoteSignAggr

namespace HeightVoteSignAggr

/-- `NewHeightVoteSignAggr`. -/
def newHeightVoteSignAggr : HeightVoteSignAggr :=
  ⟨0, fun r => if r = 0 then some ⟨none, none⟩ else none⟩

/-- `SetRound`. -/
def setRound (hvs : HeightVoteSignAggr) (round : Int) : Except Panic HeightVoteSignAggr :=
  if hvs.round ≠ 0 ∧ round < hvs.round + 1 then
    .error (.panicSanity "SetRound() must increment hvs.round")
  else
    .ok ⟨round, fun r =>
      if hvs.round + 1 ≤ r ∧ r ≤ round ∧ (hvs.roundVoteSignAggrs r).isNone then some ⟨none, none⟩
      else hvs.roundVoteSignAggrs r⟩

/-- `ResetTop2Round`. -/
def resetTop2Round (hvs : HeightVoteSignAggr) (round : Int) : Except Panic HeightVoteSignAggr :=
  if hvs.round < round ∨ round < 1 then
    .error (.panicSanity
      "HeightVoteSignAggr.ResetTop2Round() must have enough round to reset")
  else
    .ok ⟨round, fun r =>
      if r = round - 1 ∨ r = round then some ⟨none, none⟩
      else if round - 1 ≤ r ∧ r ≤ hvs.round then none
      else hvs.roundVoteSignAggrs r⟩

/-- `getSignAggr`. -/
def getSignAggr (hvs : HeightVoteSignAggr) (round : Int) (type : VoteType) : Option SignAggr :=
  RoundVoteSignAggr.get (hvs.roundVoteSignAggrs round) type

/-- `Prevotes`. -/
def prevotes (hvs : HeightVoteSignAggr) (round : Int) : Option SignAggr :=
  hvs.getSignAggr round .prevote

/-- `Precommits`. -/
def precommits (hvs : HeightVoteSignAggr) (round : Int) : Option SignAggr :=
  hvs.getSignAggr round .precommit

/-- `AddSignAggr`; its results are ignored by the caller. -/
def addSignAggr (hvs : HeightVoteSignAggr) (sa : SignAggr) : HeightVoteSignAggr :=
  if !sa.type.isVoteTypeValid then hvs
  else if (hvs.getSignAggr sa.round sa.type).isSome then hvs
  else match hvs.roundVoteSignAggrs sa.round with
    | none => hvs
    | some rvs =>
      { hvs with
        roundVoteSignAggrs := Function.update hvs.roundVoteSignAggrs sa.round (some (rvs.put sa)) }

/-- The loop of `POLInfo`, from the given round down to zero. -/
def polInfoFrom (hvs : HeightVoteSignAggr) : Nat → Int × BlockID
  | 0 =>
    match SignAggr.twoThirdsMajority (hvs.prevotes 0) with
    | some b => (0, b)
    | none => (-1, .zero)
  | r + 1 =>
    match SignAggr.twoThirdsMajority (hvs.prevotes (r + 1 : Nat)) with
    | some b => ((r + 1 : Nat), b)
    | none => hvs.polInfoFrom r

/-- `POLInfo`. -/
def polInfo (hvs : HeightVoteSignAggr) : Int × BlockID :=
  if hvs.round < 0 then (-1, .zero) else hvs.polInfoFrom hvs.round.toNat

theorem getSignAggr_newHeightVoteSignAggr (r : Int) (t : VoteType) :
    newHeightVoteSignAggr.getSignAggr r t = none := by
  simp only [getSignAggr, newHeightVoteSignAggr]
  split <;> simp

/-- Advancing the tracked round loses no aggregate and adds none. -/
theorem getSignAggr_setRound {hvs hvs' : HeightVoteSignAggr} {round : Int}
    (h : hvs.setRound round = .ok hvs') (r : Int) (t : VoteType) :
    hvs'.getSignAggr r t = hvs.getSignAggr r t := by
  rw [setRound] at h
  split at h
  · simp at h
  rw [← Except.ok.inj h, getSignAggr, getSignAggr]
  simp only
  split
  · rename_i hr
    rw [Option.isNone_iff_eq_none.1 hr.2.2, RoundVoteSignAggr.get_none,
      RoundVoteSignAggr.get_empty]
  · rfl

/-- Going back keeps only aggregates that were there. -/
theorem getSignAggr_resetTop2Round {hvs hvs' : HeightVoteSignAggr} {round : Int}
    (h : hvs.resetTop2Round round = .ok hvs') {r : Int} {t : VoteType} {sa : SignAggr}
    (hsa : hvs'.getSignAggr r t = some sa) : hvs.getSignAggr r t = some sa := by
  rw [resetTop2Round] at h
  split at h
  · simp at h
  rw [← Except.ok.inj h, getSignAggr] at hsa
  simp only at hsa
  split at hsa
  · rw [RoundVoteSignAggr.get_empty] at hsa
    cases hsa
  · split at hsa
    · rw [RoundVoteSignAggr.get_none] at hsa
      cases hsa
    · exact hsa

/-- **What `AddSignAggr` stores**: under any round and type there is afterwards what was there
before or, under its own round and type, the new aggregate. -/
theorem getSignAggr_addSignAggr {hvs : HeightVoteSignAggr} {sa sa' : SignAggr} {r : Int}
    {t : VoteType} (h : (hvs.addSignAggr sa).getSignAggr r t = some sa') :
    hvs.getSignAggr r t = some sa' ∨ sa' = sa ∧ r = sa.round ∧ t = sa.type := by
  rw [addSignAggr] at h
  split at h
  · exact .inl h
  rename_i hvalid
  split at h
  · exact .inl h
  split at h
  · exact .inl h
  rename_i rvs hrvs
  by_cases hr : r = sa.round
  · subst hr
    simp only [getSignAggr, Function.update_self] at h
    rw [RoundVoteSignAggr.get_put _ _ _ (by simpa using hvalid)] at h
    split at h
    · rename_i ht
      exact .inr ⟨(Option.some.inj h).symm, rfl, ht⟩
    · rw [getSignAggr, hrvs]
      exact .inl h
  · simp only [getSignAggr, Function.update_of_ne hr] at h
    exact .inl h

end HeightVoteSignAggr

/-! ## Votes -/

/-- `RoundVoteSet`. -/
structure RoundVoteSet where
  prevotes : VoteSet
  precommits : VoteSet

/-- `HeightVoteSet`. -/
structure HeightVoteSet where
  chainID : String
  height : Nat
  valSet : ValidatorSet
  /-- The highest tracked round. -/
  round : Int
  roundVoteSets : Int → Option RoundVoteSet
  /-- The rounds a peer has made the node track. -/
  peerCatchupRounds : String → List Int

namespace HeightVoteSet

/-- The pair of vote sets that `addRound` stores. -/
def newRoundVoteSet (chainID : String) (height : Nat) (valSet : ValidatorSet) (round : Int) :
    Except Panic RoundVoteSet := do
  let prevotes ← VoteSet.newVoteSet chainID height round .prevote valSet
  let precommits ← VoteSet.newVoteSet chainID height round .precommit valSet
  pure ⟨prevotes, precommits⟩

/-- The same as an `Option`: a height vote set exists only for a positive height. -/
def emptyRound (hvs : HeightVoteSet) (round : Int) : Option RoundVoteSet :=
  (newRoundVoteSet hvs.chainID hvs.height hvs.valSet round).toOption

/-- `NewHeightVoteSet`. -/
def newHeightVoteSet (chainID : String) (height : Nat) (valSet : ValidatorSet) :
    Except Panic HeightVoteSet := do
  let rvs ← newRoundVoteSet chainID height valSet 0
  pure ⟨chainID, height, valSet, 0, fun r => if r = 0 then some rvs else none, fun _ => []⟩

/-- `SetRound`. -/
def setRound (hvs : HeightVoteSet) (round : Int) : Except Panic HeightVoteSet :=
  if hvs.round ≠ 0 ∧ round < hvs.round + 1 then
    .error (.panicSanity "SetRound() must increment hvs.round")
  else
    .ok { hvs with
      round := round
      roundVoteSets := fun r =>
        if hvs.round + 1 ≤ r ∧ r ≤ round ∧ (hvs.roundVoteSets r).isNone then hvs.emptyRound r
        else hvs.roundVoteSets r }

/-- `ResetTop2Round`. -/
def resetTop2Round (hvs : HeightVoteSet) (round : Int) : Except Panic HeightVoteSet :=
  if hvs.round < round ∨ round < 1 then
    .error (.panicSanity "hvs.ResetTop2Round() must have enough round to reset")
  else
    .ok { hvs with
      round := round
      roundVoteSets := fun r =>
        if r = round - 1 ∨ r = round then hvs.emptyRound r
        else if round - 1 ≤ r ∧ r ≤ hvs.round then none
        else hvs.roundVoteSets r }

/-- `getVoteSet`. -/
def getVoteSet (hvs : HeightVoteSet) (round : Int) (type : VoteType) : Option VoteSet :=
  (hvs.roundVoteSets round).bind fun rvs =>
    match type with
    | .prevote => some rvs.prevotes
    | .precommit => some rvs.precommits
    | .other _ => none

/-- Storing a vote set back under its type. -/
def putVoteSet (hvs : HeightVoteSet) (round : Int) (type : VoteType) (vs : VoteSet) :
    HeightVoteSet :=
  match hvs.roundVoteSets round with
  | none => hvs
  | some rvs =>
    let rvs' : RoundVoteSet :=
      match type with
      | .prevote => { rvs with prevotes := vs }
      | .precommit => { rvs with precommits := vs }
      | .other _ => rvs
    { hvs with roundVoteSets := Function.update hvs.roundVoteSets round (some rvs') }

/-- Starting to track the round of a vote, at most twice for each peer. -/
def catchup (hvs : HeightVoteSet) (round : Int) (peerKey : String) : Option HeightVoteSet :=
  if (hvs.peerCatchupRounds peerKey).length < 2 then
    some { hvs with
      roundVoteSets := Function.update hvs.roundVoteSets round (hvs.emptyRound round)
      peerCatchupRounds := Function.update hvs.peerCatchupRounds peerKey
        (hvs.peerCatchupRounds peerKey ++ [round]) }
  else none

/-- The end of `AddVote`, once the vote set is there. -/
def addVoteTo (lib : Neatlib) (hvs : HeightVoteSet) (vote : Vote) :
    Except Panic (HeightVoteSet × Bool × Option VoteError) :=
  match hvs.getVoteSet vote.round vote.type with
  | none => .error (.panicSanity "AddVote() on nil VoteSet")
  | some vs =>
    match vs.addVote lib vote with
    | .error e => .error e
    | .ok (vs', added, err) => .ok (hvs.putVoteSet vote.round vote.type vs', added, err)

/-- `HeightVoteSet.AddVote`. -/
def addVote (lib : Neatlib) (hvs : HeightVoteSet) (vote : Vote) (peerKey : String) :
    Except Panic (HeightVoteSet × Bool × Option VoteError) :=
  if !vote.type.isVoteTypeValid then .ok (hvs, false, none)
  else if (hvs.getVoteSet vote.round vote.type).isSome then hvs.addVoteTo lib vote
  else match hvs.catchup vote.round peerKey with
    | some hvs' => hvs'.addVoteTo lib vote
    | none => .ok (hvs, false, some .unwantedRound)

/-! ### Where the votes of a height come from -/

/-- Every stored vote satisfies `P`, and lies in the vote set of its own round and type. -/
def AllVotes (P : Vote → Prop) (hvs : HeightVoteSet) : Prop :=
  ∀ (r : Int) (t : VoteType) (vs : VoteSet), hvs.getVoteSet r t = some vs →
    (vs.height = hvs.height ∧ vs.round = r ∧ vs.type = t) ∧
    ∀ v, vs.Holds v → P v ∧ v.height = hvs.height ∧ v.round = r ∧ v.type = t

/-- The clause of `AllVotes` for one round. -/
def RoundOk (P : Vote → Prop) (height : Nat) (r : Int) (rvs : Option RoundVoteSet) : Prop :=
  ∀ (t : VoteType) (vs : VoteSet), (rvs.bind fun rvs =>
      match t with
      | .prevote => some rvs.prevotes
      | .precommit => some rvs.precommits
      | .other _ => none) = some vs →
    (vs.height = height ∧ vs.round = r ∧ vs.type = t) ∧
    ∀ v, vs.Holds v → P v ∧ v.height = height ∧ v.round = r ∧ v.type = t

variable {P : Vote → Prop} {hvs hvs' : HeightVoteSet} {height : Nat} {round : Int}

theorem allVotes_iff : hvs.AllVotes P ↔ ∀ r, RoundOk P hvs.height r (hvs.roundVoteSets r) :=
  ⟨fun h r t vs hvs ↦ h r t vs hvs, fun h r t vs hvs ↦ h r t vs hvs⟩

theorem roundOk_none {r : Int} : RoundOk P height r none := by
  intro t vs h
  simp at h

theorem roundOk_new {chainID : String} {valSet : ValidatorSet}
    {r : Int} {rvs : RoundVoteSet} (h : newRoundVoteSet chainID height valSet r = .ok rvs) :
    RoundOk P height r (some rvs) := by
  rw [newRoundVoteSet] at h
  cases hpv : VoteSet.newVoteSet chainID height r .prevote valSet with
  | error => simp [hpv, bind, Except.bind] at h
  | ok pv =>
    cases hpc : VoteSet.newVoteSet chainID height r .precommit valSet with
    | error => simp [hpv, hpc, bind, Except.bind] at h
    | ok pc =>
      simp only [hpv, hpc, bind, Except.bind, pure, Except.pure, Except.ok.injEq] at h
      subst h
      intro t vs hvs
      match t with
      | .prevote =>
        obtain rfl : pv = vs := by simpa using hvs
        exact ⟨VoteSet.newVoteSet_step hpv,
          fun v hv ↦ absurd hv (VoteSet.not_holds_of_newVoteSet hpv v)⟩
      | .precommit =>
        obtain rfl : pc = vs := by simpa using hvs
        exact ⟨VoteSet.newVoteSet_step hpc,
          fun v hv ↦ absurd hv (VoteSet.not_holds_of_newVoteSet hpc v)⟩
      | .other b => simp at hvs

theorem roundOk_emptyRound (hvs : HeightVoteSet) (r : Int) :
    RoundOk P hvs.height r (hvs.emptyRound r) := by
  rw [emptyRound]
  cases h : newRoundVoteSet hvs.chainID hvs.height hvs.valSet r with
  | error => exact roundOk_none
  | ok => exact roundOk_new h

theorem allVotes_new {chainID : String} {valSet : ValidatorSet}
    (h : newHeightVoteSet chainID height valSet = .ok hvs) :
    hvs.AllVotes P ∧ hvs.height = height := by
  rw [newHeightVoteSet] at h
  cases hr : newRoundVoteSet chainID height valSet 0 with
  | error => simp [hr, bind, Except.bind] at h
  | ok =>
    simp only [hr, bind, Except.bind, pure, Except.pure, Except.ok.injEq] at h
    subst h
    refine ⟨allVotes_iff.2 fun r ↦ ?_, rfl⟩
    simp only
    split
    · rename_i h0
      rw [h0]
      exact roundOk_new hr
    · exact roundOk_none

theorem allVotes_setRound
    (h : hvs.setRound round = .ok hvs') (ha : hvs.AllVotes P) :
    hvs'.AllVotes P ∧ hvs'.height = hvs.height := by
  rw [setRound] at h
  split at h
  · simp at h
  rw [← Except.ok.inj h]
  refine ⟨allVotes_iff.2 fun r ↦ ?_, rfl⟩
  simp only
  split
  · exact roundOk_emptyRound hvs r
  · exact allVotes_iff.1 ha r

theorem allVotes_resetTop2Round
    (h : hvs.resetTop2Round round = .ok hvs') (ha : hvs.AllVotes P) :
    hvs'.AllVotes P ∧ hvs'.height = hvs.height := by
  rw [resetTop2Round] at h
  split at h
  · simp at h
  rw [← Except.ok.inj h]
  refine ⟨allVotes_iff.2 fun r ↦ ?_, rfl⟩
  simp only
  split
  · exact roundOk_emptyRound hvs r
  · split
    · exact roundOk_none
    · exact allVotes_iff.1 ha r

theorem allVotes_catchup
    {peerKey : String} (h : hvs.catchup round peerKey = some hvs') (ha : hvs.AllVotes P) :
    hvs'.AllVotes P ∧ hvs'.height = hvs.height := by
  rw [catchup] at h
  split at h
  · rw [← Option.some.inj h]
    refine ⟨allVotes_iff.2 fun r ↦ ?_, rfl⟩
    by_cases hr : r = round
    · subst hr
      simp only [Function.update_self]
      exact roundOk_emptyRound hvs r
    · simp only [Function.update_of_ne hr]
      exact allVotes_iff.1 ha r
  · simp at h

theorem allVotes_addVoteTo {lib : Neatlib} {vote : Vote} {added : Bool} {err : Option VoteError}
    (h : hvs.addVoteTo lib vote = .ok (hvs', added, err)) (ha : hvs.AllVotes P) (hP : P vote) :
    hvs'.AllVotes P ∧ hvs'.height = hvs.height := by
  rw [addVoteTo] at h
  split at h
  · simp at h
  rename_i vs hvs₀
  split at h
  · simp at h
  rename_i vs' a e hadd
  simp only [Except.ok.injEq, Prod.mk.injEq] at h
  obtain ⟨rfl, -⟩ := h
  obtain ⟨hstep, hold⟩ := ha _ _ _ hvs₀
  obtain ⟨hsame, hholds⟩ := VoteSet.addVote_holds hadd
  -- the clause for the vote set that has received the vote
  have hnew : (vs'.height = hvs.height ∧ vs'.round = vote.round ∧ vs'.type = vote.type) ∧
      ∀ v, vs'.Holds v → P v ∧ v.height = hvs.height ∧ v.round = vote.round ∧
        v.type = vote.type := by
    refine ⟨⟨hsame.height.trans hstep.1, hsame.round.trans hstep.2.1,
      hsame.type.trans hstep.2.2⟩, fun v hv ↦ ?_⟩
    rcases hholds v hv with hv | ⟨rfl, h₁, -⟩
    · exact hold v hv
    · exact ⟨hP, h₁.trans hstep.1, rfl, rfl⟩
  rw [putVoteSet]
  split
  · exact ⟨ha, rfl⟩
  rename_i rvs hrvs
  refine ⟨allVotes_iff.2 fun r ↦ ?_, rfl⟩
  by_cases hr : r = vote.round
  · subst hr
    simp only [Function.update_self]
    intro t ws hws
    have hold' := allVotes_iff.1 ha vote.round
    rw [hrvs] at hold'
    cases hty : vote.type with
    | prevote =>
      rw [hty] at hnew hws
      match t with
      | .prevote => obtain rfl : vs' = ws := by simpa using hws
                    exact hnew
      | .precommit => exact hold' .precommit ws (by simpa using hws)
      | .other b => simp at hws
    | precommit =>
      rw [hty] at hnew hws
      match t with
      | .prevote => exact hold' .prevote ws (by simpa using hws)
      | .precommit => obtain rfl : vs' = ws := by simpa using hws
                      exact hnew
      | .other b => simp at hws
    | other b =>
      rw [hty] at hws
      exact hold' t ws (by simpa using hws)
  · simp only [Function.update_of_ne hr]
    exact allVotes_iff.1 ha r

/-- Adding a vote adds at most that vote. -/
theorem allVotes_addVote {lib : Neatlib}
    {vote : Vote} {peerKey : String} {added : Bool} {err : Option VoteError}
    (h : hvs.addVote lib vote peerKey = .ok (hvs', added, err)) (ha : hvs.AllVotes P)
    (hP : P vote) : hvs'.AllVotes P ∧ hvs'.height = hvs.height := by
  rw [addVote] at h
  split at h
  · simp only [Except.ok.injEq, Prod.mk.injEq] at h
    obtain ⟨rfl, -⟩ := h
    exact ⟨ha, rfl⟩
  · split at h
    · exact allVotes_addVoteTo h ha hP
    split at h
    · rename_i hvs₁ hc
      obtain ⟨ha₁, hh₁⟩ := allVotes_catchup hc ha
      obtain ⟨ha₂, hh₂⟩ := allVotes_addVoteTo h ha₁ hP
      exact ⟨ha₂, hh₂.trans hh₁⟩
    · simp only [Except.ok.injEq, Prod.mk.injEq] at h
      obtain ⟨rfl, -⟩ := h
      exact ⟨ha, rfl⟩

end HeightVoteSet

end NeatPoS
