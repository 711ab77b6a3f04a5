import NeatPoS.Consensus.Runs

/-!
# Whether nodes agree on the proposer

The proposer of round 0 is drawn with the hash of the last header, and the proposers of the later
rounds follow in the order of the validators.  There is one exception: if the same validator was
drawn for the last height as well and has not signed there, it is skipped.

Whether it has signed is read off the `SeenCommit` of the last block.  That is the commit that the
node itself has put together or received, it lists whoever happened to be counted, and it is part of
the extra data of the header, which `NeatconFilteredHeader` takes out before hashing.  So two nodes
with the same chain may disagree about the bit, and `selects_agree_iff` says that this is the one
thing that can make them disagree about the proposer.  Since the later rounds count from the choice
for round 0, they then disagree for the whole height.
-/

set_option autoImplicit false

namespace NeatPoS

open Stateful

/-- The `VRFProposer` of a round, its index and the validator, once the choice for round 0 of the
height has been made. -/
def selects (env : Env) (cs : ConsensusState) (round : Int) : Except Panic (Int × Validator) := do
  let first ← vrfIndex env cs
  let idx := if round = 0 then first else (int64 (first + round)).tmod cs.validators.size
  let proposer ← proposerAt idx cs
  pure (idx, proposer)

/-- `selects` is what `proposerByRound` returns: once the node has asked for the proposer of round
0, every later call for a round of the height is answered so. -/
theorem proposerByRound_selects {env : Env} {cs cs' : ConsensusState} {v : Validator}
    (h : proposerByRound env 0 cs = .ok v cs') :
    (selects env cs 0).map Prod.snd = .ok v ∧ ∀ (env' : Env) (r : Int), 0 ≤ r →
      proposerByRound env' r cs' = fromExcept ((selects env cs r).map Prod.snd) cs' := by
  rw [proposerByRound, get_bind_apply, if_pos rfl, fromExcept_bind_eq_ok] at h
  obtain ⟨first, hfirst, h⟩ := h
  rw [modify_bind_apply] at h
  rcases hv : proposerAt first cs with e | w
  · simp [hv, fromExcept] at h
  obtain ⟨rfl, rfl⟩ : w = v ∧ { cs with vrfValIndex := first } = cs' := by
    simpa [hv, fromExcept] using h
  have hnonneg : 0 ≤ first ∧ first < cs.validators.size := by
    by_contra hout
    rw [proposerAt, if_pos (by omega)] at hv
    cases hv
  refine ⟨by simp [selects, hfirst, hv, bind, Except.bind, Except.map, pure, Except.pure],
    fun env' r hr ↦ ?_⟩
  by_cases hzero : r = 0
  · have hcached : vrfIndex env' { cs with vrfValIndex := first } = .ok first :=
      if_pos hnonneg.1
    have hsame : proposerAt first { cs with vrfValIndex := first } = .ok w := hv
    have hreturns : proposerByRound env' 0 { cs with vrfValIndex := first } =
        .ok w { cs with vrfValIndex := first } := by
      rw [proposerByRound, get_bind_apply, if_pos rfl, fromExcept_bind_eq_ok]
      exact ⟨first, hcached, by rw [modify_bind_apply]; simp [hsame, fromExcept]⟩
    rw [hzero, hreturns]
    simp [selects, hfirst, hv, bind, Except.bind, Except.map, pure, Except.pure, fromExcept]
  · have hchosen : ¬ first < 0 := by omega
    have hsize : ¬ cs.validators.size = 0 := by omega
    rw [proposerByRound, get_bind_apply]
    simp only [if_neg hzero, if_neg hchosen, if_neg hsize]
    simp only [selects, hfirst, bind, Except.bind, if_neg hzero]
    rcases hidx : proposerAt ((int64 (first + r)).tmod cs.validators.size) cs with e | _
    · rw [show proposerAt _ { cs with vrfValIndex := first } = _ from hidx]
      rfl
    · rw [show proposerAt _ { cs with vrfValIndex := first } = _ from hidx]
      rfl

/-- The drawn validator has a bit in the node's last commit, and it is not set. -/
def missesSignature (cs : ConsensusState) (idx : Int) : Prop :=
  (cs.ncExtra.seenCommit.bind (·.bitArray)).map (fun bits => bits.getD idx.toNat false) = some false

instance (cs : ConsensusState) (idx : Int) : Decidable (missesSignature cs idx) :=
  inferInstanceAs (Decidable (_ = _))

/-- The nodes are at the start of the same height and the same epoch, and the headers of their
chains have the same hashes. -/
structure SameChain (env₁ env₂ : Env) (cs₁ cs₂ : ConsensusState) : Prop where
  sha256 : env₁.sha256 = env₂.sha256
  number : env₁.chain.currentBlock.numberU64 = env₂.chain.currentBlock.numberU64
  hash : env₁.chain.currentBlock.header.hash env₁.chain.keccak =
    env₂.chain.currentBlock.header.hash env₂.chain.keccak
  lastHash : ∀ n, (env₁.chain.getHeaderByNumber n).map (·.hash env₁.chain.keccak) =
    (env₂.chain.getHeaderByNumber n).map (·.hash env₂.chain.keccak)
  validators : cs₁.validators = cs₂.validators
  startBlock : cs₁.epoch.startBlock = cs₂.epoch.startBlock
  /-- Neither has chosen yet. -/
  unchosen : cs₁.vrfValIndex < 0 ∧ cs₂.vrfValIndex < 0

/-! ## The draw -/

theorem vrfLoop_range (vs : List Validator) (n i : Int) (hi : 0 ≤ i) :
    vrfLoop vs n i = -1 ∨ i ≤ vrfLoop vs n i ∧ vrfLoop vs n i < i + vs.length := by
  induction vs generalizing n i with
  | nil => exact .inl rfl
  | cons v _ ih =>
    rw [vrfLoop]
    split
    · right
      simp only [List.length_cons]
      omega
    · rcases ih (n - v.votingPower) (i + 1) (by omega) with h | h
      · exact .inl h
      · right
        simp only [List.length_cons]
        omega

theorem proposerByVRF_congr {env₁ env₂ : Env} (h : env₁.sha256 = env₂.sha256) (hash : Bytes)
    (vs : List Validator) : proposerByVRF env₁ hash vs = proposerByVRF env₂ hash vs := by
  rw [proposerByVRF, proposerByVRF, h]

theorem proposerByVRF_range {env : Env} {hash : Bytes} {vs : List Validator} {i : Int}
    (h : proposerByVRF env hash vs = .ok i) : i = -1 ∨ 0 ≤ i ∧ i < vs.length := by
  rw [proposerByVRF] at h
  split at h
  · simp at h
  · cases h
    simpa using vrfLoop_range vs _ 0 le_rfl

variable {cs : ConsensusState}

/-- Whoever is drawn is a validator, or nobody is. -/
theorem proposersByVRF_range {env : Env} {last cur : Int}
    (h : proposersByVRF env cs = .ok (last, cur)) :
    cur = -1 ∨ 0 ≤ cur ∧ cur < cs.validators.size := by
  rw [proposersByVRF] at h
  simp only [bind, Except.bind] at h
  split at h
  · simp at h
  rename_i cur' hcur
  have hrange := proposerByVRF_range hcur
  split at h
  · obtain ⟨-, rfl⟩ := by simpa [pure, Except.pure] using h
    exact hrange
  split at h
  · split at h
    · simp [throw, throwThe, MonadExceptOf.throw] at h
    · split at h
      · simp at h
      · obtain ⟨-, rfl⟩ := by simpa [pure, Except.pure] using h
        exact hrange
  · obtain ⟨-, rfl⟩ := by simpa [pure, Except.pure] using h
    exact .inl rfl

/-- The validator of round 0 is the one that is drawn, or the next one. -/
def firstIndex (cs : ConsensusState) (last cur : Int) : Int :=
  if last ≥ 0 ∧ cur = last ∧ missesSignature cs cur then (cur + 1).tmod cs.validators.size else cur

theorem vrfIndex_of_unchosen {env : Env} (h : cs.vrfValIndex < 0) :
    vrfIndex env cs = (proposersByVRF env cs).map fun x => firstIndex cs x.1 x.2 := by
  rw [vrfIndex, if_neg (by omega)]
  rcases proposersByVRF env cs with _ | ⟨last, cur⟩
  · rfl
  by_cases hskip : last ≥ 0 ∧ cur = last ∧ missesSignature cs cur
  · rw [Except.map, firstIndex, if_pos hskip]
    exact if_pos hskip
  · rw [Except.map, firstIndex, if_neg hskip]
    exact if_neg hskip

theorem proposerAt_of_range {i : Int} (h₁ : 0 ≤ i)
    (h₂ : i < cs.validators.size) : ∃ v, proposerAt i cs = .ok v := by
  rw [proposerAt, if_neg (by omega)]
  have hlt : i.toNat < cs.validators.validators.length := by
    rw [ValidatorSet.size] at h₂
    omega
  rw [List.getElem?_eq_getElem hlt]
  exact ⟨_, rfl⟩

section
variable {env₁ env₂ : Env} {cs₁ cs₂ : ConsensusState}

/-- What is drawn depends on the hashes only. -/
theorem SameChain.proposersByVRF (h : SameChain env₁ env₂ cs₁ cs₂) :
    NeatPoS.proposersByVRF env₁ cs₁ = NeatPoS.proposersByVRF env₂ cs₂ := by
  rw [NeatPoS.proposersByVRF, NeatPoS.proposersByVRF]
  simp only [h.number, h.hash, h.validators, h.startBlock, proposerByVRF_congr h.sha256]
  have hlast := h.lastHash (env₂.chain.currentBlock.numberU64 - 1)
  rcases h₁ : env₁.chain.getHeaderByNumber (env₂.chain.currentBlock.numberU64 - 1) with _ | _
  · rcases h₂ : env₂.chain.getHeaderByNumber (env₂.chain.currentBlock.numberU64 - 1) with _ | g₂
    · rfl
    · simp [h₁, h₂] at hlast
  · rcases h₂ : env₂.chain.getHeaderByNumber (env₂.chain.currentBlock.numberU64 - 1) with _ | g₂
    · simp [h₁, h₂] at hlast
    · simp only [h₁, h₂, Option.map_some, Option.some.injEq] at hlast
      simp only [hlast]

theorem SameChain.selects_eq (h : SameChain env₁ env₂ cs₁ cs₂) {last cur : Int}
    (hdraw : NeatPoS.proposersByVRF env₁ cs₁ = .ok (last, cur))
    (hfirst : firstIndex cs₁ last cur = firstIndex cs₂ last cur) (r : Int) :
    selects env₁ cs₁ r = selects env₂ cs₂ r := by
  rw [selects, selects, vrfIndex_of_unchosen h.unchosen.1, vrfIndex_of_unchosen h.unchosen.2,
    ← h.proposersByVRF, hdraw]
  simp only [Except.map, bind, Except.bind, hfirst, h.validators, proposerAt]

/-- The next validator is another one, unless there is only one. -/
theorem tmod_succ_ne {cur size : Int} (h₁ : 0 ≤ cur) (h₂ : cur < size) (hsize : size ≠ 1) :
    (cur + 1).tmod size ≠ cur ∧ 0 ≤ (cur + 1).tmod size ∧ (cur + 1).tmod size < size := by
  rw [Int.tmod_eq_emod_of_nonneg (by omega)]
  rcases (show cur + 1 ≤ size by omega).lt_or_eq with hlt | heq
  · rw [Int.emod_eq_of_lt (by omega) hlt]
    omega
  · rw [heq, Int.emod_self]
    omega

/-- If one node skips the validator that is drawn and the other does not, they disagree at once. -/
theorem SameChain.selects_ne (h : SameChain env₁ env₂ cs₁ cs₂) {last cur : Int}
    (hdraw : NeatPoS.proposersByVRF env₁ cs₁ = .ok (last, cur))
    (hfirst : firstIndex cs₁ last cur ≠ firstIndex cs₂ last cur)
    (hrange : ∀ cs, cs = cs₁ ∨ cs = cs₂ → 0 ≤ firstIndex cs last cur ∧
      firstIndex cs last cur < cs.validators.size) :
    selects env₁ cs₁ 0 ≠ selects env₂ cs₂ 0 := by
  obtain ⟨_, hv₁⟩ := proposerAt_of_range (hrange cs₁ (.inl rfl)).1 (hrange cs₁ (.inl rfl)).2
  obtain ⟨_, hv₂⟩ := proposerAt_of_range (hrange cs₂ (.inr rfl)).1 (hrange cs₂ (.inr rfl)).2
  rw [selects, selects, vrfIndex_of_unchosen h.unchosen.1, vrfIndex_of_unchosen h.unchosen.2,
    ← h.proposersByVRF, hdraw]
  simp only [Except.map, bind, Except.bind, reduceIte, hv₁, hv₂, pure, Except.pure, ne_eq,
    Except.ok.injEq, Prod.mk.injEq, not_and]
  exact fun heq ↦ absurd heq hfirst

end

/-- **When nodes agree on the proposer.**  Two nodes with the same chain select the same validator
in every round exactly when the validator that is drawn was not drawn for the last height, or their
commits for the last block say the same about its signature, or there is only one validator. -/
theorem selects_agree_iff {env₁ env₂ : Env} {cs₁ cs₂ : ConsensusState}
    (h : SameChain env₁ env₂ cs₁ cs₂) :
    (∀ r, 0 ≤ r → selects env₁ cs₁ r = selects env₂ cs₂ r) ↔
      ∀ drawn, proposersByVRF env₁ cs₁ = .ok (drawn, drawn) → 0 ≤ drawn →
        (missesSignature cs₁ drawn ↔ missesSignature cs₂ drawn) ∨ cs₁.validators.size = 1 := by
  constructor
  · intro hagree drawn hdraw hnonneg
    by_contra hdiff
    obtain ⟨hmiss, hsize⟩ := not_or.1 hdiff
    have hcur := (proposersByVRF_range hdraw).resolve_left (by omega)
    obtain ⟨hne, hlow, hhigh⟩ := tmod_succ_ne hcur.1 hcur.2 (by omega)
    have hcases : ∀ cs, cs.validators = cs₁.validators → firstIndex cs drawn drawn =
        if missesSignature cs drawn then (drawn + 1).tmod cs₁.validators.size else drawn := by
      intro cs hvals
      simp [firstIndex, hnonneg, hvals]
    have h₁ := hcases cs₁ rfl
    have h₂ := hcases cs₂ h.validators.symm
    refine h.selects_ne hdraw ?_ ?_ (hagree 0 le_rfl)
    · rw [h₁, h₂]
      by_cases hm : missesSignature cs₁ drawn
      · rw [if_pos hm, if_neg fun hm₂ ↦ hmiss ⟨fun _ ↦ hm₂, fun _ ↦ hm⟩]
        exact hne
      · rw [if_neg hm, if_pos (by tauto)]
        exact hne.symm
    · rintro cs (rfl | rfl)
      · rw [h₁]
        split <;> omega
      · rw [h₂, ← h.validators]
        split <;> omega
  · intro hcond r _
    rcases hdraw : proposersByVRF env₁ cs₁ with e | ⟨last, cur⟩
    · rw [selects, selects, vrfIndex_of_unchosen h.unchosen.1, vrfIndex_of_unchosen h.unchosen.2,
        ← h.proposersByVRF, hdraw]
      rfl
    · refine h.selects_eq hdraw ?_ r
      by_cases hagain : last ≥ 0 ∧ cur = last
      · obtain ⟨hnonneg, rfl⟩ := hagain
        have hcur := (proposersByVRF_range hdraw).resolve_left (by omega)
        rcases hcond cur hdraw hnonneg with hmiss | hsize
        · simp only [firstIndex, hmiss, h.validators]
        · -- the only validator is also the next one
          have hzero : cur = 0 := by omega
          have hone : cs₂.validators.size = 1 := h.validators ▸ hsize
          simp [firstIndex, hzero, hsize, hone]
      · have hno : ∀ cs : ConsensusState, ¬ (last ≥ 0 ∧ cur = last ∧ missesSignature cs cur) :=
          fun cs hc ↦ hagain ⟨hc.1, hc.2.1⟩
        rw [firstIndex, firstIndex, if_neg (hno cs₁), if_neg (hno cs₂)]

namespace SmallNet

/-- A commit for block 4, signed by those whose bit is set. -/
def lastCommit (bits : BitArray) : Commit where
  blockID := ⟨[4, 0], ⟨1, [4]⟩⟩
  height := 4
  round := 0
  signAggr := (validators.aggrPubKey lib (some bits)).getD [] ++
    lib.voteSignBytes ⟨"neatio", ⟨[4, 0], ⟨1, [4]⟩⟩, 4, 0, .precommit⟩
  bitArray := some bits

/-- The node has recorded this commit for block 4. -/
def seenEnv (bits : BitArray) : Env :=
  { env 0 with loadLastNeatconExtra := some { extra with seenCommit := some (lastCommit bits) } }

/-- A node that has recorded this commit, at the start of height 5. -/
def seenNode (bits : BitArray) : ConsensusState :=
  endState (startNewHeight (seenEnv bits)) (blank [1])

theorem sameChain_seenNode (bits bits' : BitArray) :
    SameChain (seenEnv bits) (seenEnv bits') (seenNode bits) (seenNode bits') := by
  have hunchosen : (-1 : Int) < 0 := by decide
  exact ⟨rfl, rfl, rfl, fun _ ↦ rfl, rfl, rfl, hunchosen, hunchosen⟩

end SmallNet

open SmallNet in
theorem selects_agree_iff_seenNode :
    (∀ r, 0 ≤ r → selects (seenEnv [true, true, true]) (seenNode [true, true, true]) r =
      selects (seenEnv [true, false, true]) (seenNode [true, false, true]) r) ↔
      ∀ drawn, proposersByVRF (seenEnv [true, true, true]) (seenNode [true, true, true]) =
          .ok (drawn, drawn) → 0 ≤ drawn →
        (missesSignature (seenNode [true, true, true]) drawn ↔
          missesSignature (seenNode [true, false, true]) drawn) ∨
        (seenNode [true, true, true]).validators.size = 1 :=
  selects_agree_iff (sameChain_seenNode _ _)

open SmallNet in
/-- **Nodes disagree on the proposer.**  The third validator is enough for a commit.  One node has
recorded a commit with the signature of the first validator as well and the other one without it,
and both commits are valid.  The first validator is drawn twice in a row. -/
theorem selects_disagree :
    SameChain (seenEnv [true, false, true]) (seenEnv [false, false, true])
      (seenNode [true, false, true]) (seenNode [false, false, true]) ∧
    validators.verifyCommit lib "neatio" 4 (some (lastCommit [true, false, true])) = .ok none ∧
    validators.verifyCommit lib "neatio" 4 (some (lastCommit [false, false, true])) = .ok none ∧
    (selects (seenEnv [true, false, true]) (seenNode [true, false, true]) 0).map (·.2.address) =
      .ok [1] ∧
    (selects (seenEnv [false, false, true]) (seenNode [false, false, true]) 0).map (·.2.address) =
      .ok [2] := by
  refine ⟨sameChain_seenNode _ _, ?_, ?_, ?_, ?_⟩
  · decide +kernel
  · decide +kernel
  · decide +kernel
  · decide +kernel

end NeatPoS
