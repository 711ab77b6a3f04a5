import NeatPoS.Staking.Chain
import NeatPoS.Staking.Genesis
import NeatPoS.Staking.Refunds

/-!
# Runs of the chain

`Chain.DbStep` says what each move does to the state, and `Reaches.invariant` is the induction over
a run: what holds at the genesis and is kept by every `DbStep` holds in every state that is reached.

The first invariant is soundness.  It is proved for all runs, without a condition on the moves, and
it is what the others are built on.
-/

set_option autoImplicit false

namespace NeatPoS

open DFinsupp Ledger

/-! ## The moves of the chain -/

namespace StateDB

variable {rt : Runtime} {bc : ChainView} {tx : StakingTx} {s s' : StateDB}
  {ops : List UpdateNextEpochOp}

/-- A transaction is a callback between things that have nothing to do with delegations. -/
theorem applyTransactionEx_steps (h : applyTransactionEx rt bc tx s = .ok (s', ops)) :
    ∃ s₀ t₀ t t', Still s s₀ ∧ applyCb rt bc tx s₀ = .ok (t₀, ops) ∧ Still t₀ t ∧
      t.finalise = .ok t' ∧ Still t' s' := by
  obtain ⟨-, -, t₀, hcb, hfinish⟩ := applyTransactionEx_ok h
  obtain ⟨-, t', hfin, rfl⟩ := finishTransaction_ok hfinish
  exact ⟨_, t₀, _, t', sub_still s rfl _, hcb, add_still t₀ rfl _, hfin, setNonce_still _ _ _⟩

end StateDB

namespace StateDB

theorem countMinedBlocks_still {bits : List Bool} {vs : List Validator} {s s' : StateDB}
    (h : s.countMinedBlocks bits vs = .ok s') : Still s s' := by
  induction bits generalizing vs s with
  | nil =>
    cases h
    exact Still.refl _
  | cons b _ ih =>
    cases b with
    | false => exact ih h
    | true =>
      cases vs with
      | nil => cases h
      | cons v =>
        have hround : Still s (s.countMinedBlock v.address) :=
          (getOrNewStateObject_still s v.address).trans (setMinedBlocks_still _ v.address _)
        exact hround.trans (ih h)

theorem banIfIdle_eq (s : StateDB) (a : Address) :
    s.banIfIdle a = if (s.accounts a).blockTime = 0 then
      (((s.getOrNewStateObject a).setBanned a true).setBannedTime a bannedEpoch).markAddressBanned a
    else s.getOrNewStateObject a :=
  rfl

theorem banIfIdle_still (s : StateDB) (a : Address) : Still s (s.banIfIdle a) := by
  have hnew := getOrNewStateObject_still s a
  rw [banIfIdle_eq]
  split
  · exact ((hnew.trans (setBanned_still _ a true)).trans (setBannedTime_still _ a _)).trans
      (markAddressBanned_still _ a)
  · exact hnew

end StateDB

theorem updateBannedState_still {epoch : Epoch} {height : Nat} {commit : Option Commit}
    {s s' : StateDB} (h : updateBannedState epoch height commit s = .ok s') : StateDB.Still s s' := by
  simp only [updateBannedState] at h
  split at h
  · cases h
    exact StateDB.Still.refl s
  split at h
  · cases h
    exact StateDB.Still.foldl (fun t a => StateDB.setMinedBlocks_still t a 0) _ s
  split at h
  · cases h
    exact StateDB.Still.foldl StateDB.banIfIdle_still _ s
  · split at h
    · cases h
      exact StateDB.Still.refl s
    · exact StateDB.countMinedBlocks_still h

/-- The three outcomes of `ShouldEnterNewEpoch`. -/
theorem shouldEnterNewEpoch_cases (rt : Runtime) (epoch : Epoch)
    (nextEpoch : Option (Option EpochValidatorVoteSet)) (height : Nat) (s : StateDB) :
    (∃ votes, height = epoch.endBlock ∧ nextEpoch = some votes ∧
      shouldEnterNewEpoch rt epoch nextEpoch height s =
        ((enterNewEpoch rt epoch.validators votes s).1,
          .enter (enterNewEpoch rt epoch.validators votes s).2)) ∨
    shouldEnterNewEpoch rt epoch nextEpoch height s = (s, .stay) ∨
    shouldEnterNewEpoch rt epoch nextEpoch height s = (s, .nextEpochNotExist) := by
  by_cases hend : height = epoch.endBlock
  · cases nextEpoch with
    | none =>
      right
      right
      simp only [shouldEnterNewEpoch, if_pos hend]
    | some votes =>
      left
      refine ⟨votes, hend, rfl, ?_⟩
      simp only [shouldEnterNewEpoch, if_pos hend]
  · right
    left
    simp only [shouldEnterNewEpoch, if_neg hend]

namespace Chain

variable {checkConsensusPubKey : Address → Bytes → Bytes → Bool} {rt : Runtime} {c c' : Chain}

/-- What a move does to the state. -/
inductive DbStep (checkConsensusPubKey : Address → Bytes → Bytes → Bool) (rt : Runtime) (c c' : Chain) :
    Action → Prop
  | tx (tx : StakingTx) (ops : List UpdateNextEpochOp) (hphase : c.phase = .applying)
      (hphase' : c'.phase = .applying)
      (h : applyTransactionEx rt (c.view checkConsensusPubKey) tx c.db = .ok (c'.db, ops)) :
      DbStep checkConsensusPubKey rt c c' (.tx tx)
  | reward (a d : Address) (x : Nat) (hphase : c.phase = .applying) (hphase' : c'.phase = .applying)
      (h : c'.db = c.db.addRewardBalanceByDelegateAddress a d x) :
      DbStep checkConsensusPubKey rt c c' (.reward a d x)
  | nextEpoch (epoch : Epoch) (hphase : c'.phase = c.phase) (h : c'.db = c.db) :
      DbStep checkConsensusPubKey rt c c' (.nextEpoch epoch)
  /-- The epoch is not switched. -/
  | stay (commit : Option Commit) (hphase : c.phase = .applying) (hphase' : c'.phase = .finalized none)
      (h : updateBannedState c.epoch (c.height + 1) commit c.db = .ok c'.db) :
      DbStep checkConsensusPubKey rt c c' (.finalize commit)
  /-- The epoch is switched. -/
  | enter (commit : Option Commit) (s : StateDB) (votes : Option EpochValidatorVoteSet)
      (hphase : c.phase = .applying) (hend : c.height + 1 = c.epoch.endBlock)
      (hvotes : c.nextEpoch.map (·.2) = some votes)
      (hban : updateBannedState c.epoch (c.height + 1) commit c.db = .ok s)
      (h : c'.db = (enterNewEpoch rt c.epoch.validators votes s).1)
      (hphase' : c'.phase = .finalized (some (enterNewEpoch rt c.epoch.validators votes s).2)) :
      DbStep checkConsensusPubKey rt c c' (.finalize commit)
  | write (newValidators : Option ValidatorSet) (hphase : c.phase = .finalized newValidators)
      (hphase' : c'.phase = .applying) (h : c.db.commit = .ok c'.db) :
      DbStep checkConsensusPubKey rt c c' .write

theorem applyOps_ok (h : c.applyOps = .ok c') : c'.db = c.db ∧ c'.phase = c.phase := by
  rw [applyOps] at h
  split at h
  · split at h
    · cases h
      exact ⟨rfl, rfl⟩
    · cases h
  · cases h
    exact ⟨rfl, rfl⟩

theorem switchEpoch_db (c : Chain) (newValidators : Option ValidatorSet) :
    (c.switchEpoch newValidators).db = c.db ∧ (c.switchEpoch newValidators).phase = c.phase := by
  constructor <;> simp only [switchEpoch] <;> split <;> rfl

theorem step_write_ok (h : c.step checkConsensusPubKey rt .write = .ok c') :
    ∃ newValidators db c₁, c.phase = .finalized newValidators ∧ c.db.commit = .ok db ∧
      applyOps { c with db, height := c.height + 1, phase := .applying } = .ok c₁ ∧
      c' = c₁.switchEpoch newValidators := by
  simp only [step] at h
  split at h
  · cases h
  rename_i newValidators hphase
  split at h
  · cases h
  rename_i db hcommit
  cases hops : applyOps { c with db, height := c.height + 1, phase := .applying } with
  | error =>
    rw [hops] at h
    cases h
  | ok c₁ =>
    rw [hops] at h
    cases h
    exact ⟨newValidators, db, c₁, hphase, hcommit, hops, rfl⟩

theorem step_ok {a : Action} (h : c.step checkConsensusPubKey rt a = .ok c') :
    DbStep checkConsensusPubKey rt c c' a := by
  cases a with
  | tx tx =>
    simp only [step] at h
    split at h
    · cases h
    rename_i hphase
    split at h
    · cases h
    · rename_i db ops htx
      cases h
      exact .tx tx ops hphase hphase htx
  | reward a d x =>
    simp only [step] at h
    split at h
    · cases h
    · rename_i hphase
      cases h
      exact .reward a d x hphase hphase rfl
  | nextEpoch epoch =>
    simp only [step] at h
    split at h <;> cases h <;> exact .nextEpoch epoch rfl rfl
  | finalize commit =>
    simp only [step] at h
    split at h
    · cases h
    rename_i hphase
    split at h
    · cases h
    rename_i s hban
    rcases shouldEnterNewEpoch_cases rt c.epoch (c.nextEpoch.map (·.2)) (c.height + 1) s with
      ⟨votes, hend, hvotes, hswitch⟩ | hswitch | hswitch
    · rw [hswitch] at h
      cases h
      exact .enter commit s votes hphase hend hvotes hban rfl rfl
    · rw [hswitch] at h
      cases h
      exact .stay commit hphase rfl hban
    · rw [hswitch] at h
      cases h
      exact .stay commit hphase rfl hban
  | write =>
    obtain ⟨newValidators, db, c₁, hphase, hcommit, hops, rfl⟩ := step_write_ok h
    obtain ⟨hdb, hph⟩ := applyOps_ok hops
    obtain ⟨hdb', hph'⟩ := switchEpoch_db c₁ newValidators
    refine .write newValidators hphase (hph'.trans hph) ?_
    rw [hdb', hdb]
    exact hcommit

/-- What holds at the start and is kept by the moves that are made holds in every state reached. -/
theorem Reaches.invariant {ok : Chain → Action → Prop} {c₀ : Chain} {I : Chain → Prop} (h₀ : I c₀)
    (hstep : ∀ {c c' : Chain} (rt : Runtime) (a : Action), I c → ok c a →
      DbStep checkConsensusPubKey rt c c' a → I c')
    (h : Reaches checkConsensusPubKey ok c₀ c) : I c := by
  induction h with
  | start => exact h₀
  | move rt a _ hok hmove ih => exact hstep rt a ih hok (step_ok hmove)

/-! ## Soundness -/

/-- The state is sound, or about to be written. -/
structure Sound (c : Chain) : Prop where
  applying : c.phase = .applying → c.db.Sound
  finalized : ∀ newValidators, c.phase = .finalized newValidators → c.db.Unwritten

theorem Sound.of_applying (hphase : c.phase = .applying) (h : c.db.Sound) : c.Sound := by
  refine ⟨fun _ => h, fun newValidators hfin => ?_⟩
  rw [hphase] at hfin
  cases hfin

theorem Sound.of_finalized {newValidators : Option ValidatorSet}
    (hphase : c.phase = .finalized newValidators) (h : c.db.Unwritten) : c.Sound := by
  refine ⟨fun happ => ?_, fun _ _ => h⟩
  rw [hphase] at happ
  cases happ

end Chain

namespace StateDB

variable {rt : Runtime} {bc : ChainView} {tx : StakingTx} {s s' : StateDB}
  {ops : List UpdateNextEpochOp}

theorem Change.standing (hs : Sound s) {c : Address} (h : Change tx s s' c) :
    Open s' c ∨ Leaving s' c := by
  cases h with
  | kept hentry hcand =>
    rcases hs.standing c with ho | ho
    · exact .inl (ho.of_entry hentry)
    · exact .inr (ho.of_entry hentry (hcand.trans ho.notCandidate))
  | opened ho => exact .inl ho
  | quits _ _ ho hcand hentry =>
    refine .inr ⟨hcand, fun u => ?_⟩
    rw [hentry]
    obtain ⟨-, hr, hcov⟩ := ho u
    simp only [getAccountProxiedBalance] at hr hcov
    refine ⟨rfl, hr.trans hcov, ?_⟩
    show s.amounts (.depositProxied c u) ≤
      s.amounts (.pendingRefund c u) + s.amounts (.depositProxied c u)
    omega

/-- The state after a callback. -/
theorem Sound.applyCb (hs : Sound s) (h : applyCb rt bc tx s = .ok (s', ops)) : Unwritten s' := by
  obtain ⟨hkept, hchange⟩ := applyCb_change hs h
  refine hs.unwritten (applyCb_sameBooks h).toTouches hkept fun c => ?_
  rcases (hchange c).standing hs with ho | ho
  · exact .inl ho
  · exact .inr (.inl ho)

/-- **A transaction leads from a sound state to a sound state.** -/
theorem Sound.applyTransactionEx (hs : Sound s)
    (h : applyTransactionEx rt bc tx s = .ok (s', ops)) : Sound s' := by
  obtain ⟨_, _, _, _, hs₀, hcb, ht, hfin, hs'⟩ := applyTransactionEx_steps h
  exact ((((hs.still hs₀).applyCb hcb).still ht).sound hfin).still hs'

theorem Sound.unwritten_self (hs : Sound s) : Unwritten s := by
  refine hs.unwritten (Touches.refl s) hs.toKept fun c => ?_
  rcases hs.standing c with ho | ho
  · exact .inl ho
  · exact .inr (.inl ho)

/-- A reward is credited. -/
theorem Sound.reward_credit (hs : Sound s) (a d : Address) (x : Nat) :
    Sound (s.addRewardBalanceByDelegateAddress a d x) := by
  have hposts := addRewardBalanceByDelegateAddress_posts s a d x
  have hset : (s.addRewardBalanceByDelegateAddress a d x).delegateRefundSet = s.delegateRefundSet := by
    simp [addRewardBalanceByDelegateAddress]
  have hentry (c u : Address) :
      (s.addRewardBalanceByDelegateAddress a d x).getAccountProxiedBalance c u =
        s.getAccountProxiedBalance c u := by
    apply hposts.getAccountProxiedBalance <;> simp [rewardPosting]
  refine ⟨⟨fun l hl => ?_, fun c u hcu => ?_, hset ▸ hs.coherent, fun a' d' => ?_⟩, fun c => ?_,
    fun c u => ?_⟩
  · rw [hposts.amounts, map_add, hs.law l hl, zero_add]
    cases l <;> simp [rewardPosting, Law.weight, Law.total, Law.sums]
  · rw [hset]
    refine hs.marked c u ?_
    have hr := congrArg AccountProxiedBalance.pendingRefundBalance (hentry c u)
    simp only [getAccountProxiedBalance] at hr
    rwa [hr] at hcu
  · rw [hposts.apply]
    have hold := hs.reward a' d'
    simp only [rewardPosting, DFinsupp.add_apply, single_apply]
    split <;> simp <;> omega
  · rcases hs.standing c with ho | ho
    · exact .inl (ho.of_entry (hentry c))
    · exact .inr (ho.of_entry (hentry c) ((hposts.isCandidate c).trans ho.notCandidate))
  · rw [hposts.proxiedTrie, hentry]
    exact hs.trie c u

end StateDB

namespace Chain

variable {checkConsensusPubKey : Address → Bytes → Bytes → Bool} {rt : Runtime} {c c' : Chain}

theorem DbStep.sound {a : Action} (hs : c.Sound) (h : DbStep checkConsensusPubKey rt c c' a) :
    c'.Sound := by
  cases h with
  | tx _ _ hphase hphase' h => exact .of_applying hphase' ((hs.applying hphase).applyTransactionEx h)
  | reward a d x hphase hphase' h =>
    refine .of_applying hphase' ?_
    rw [h]
    exact (hs.applying hphase).reward_credit a d x
  | nextEpoch _ hphase h =>
    constructor
    · intro happ
      rw [h]
      exact hs.applying (hphase ▸ happ)
    · intro newValidators hfin
      rw [h]
      exact hs.finalized newValidators (hphase ▸ hfin)
  | stay _ hphase hphase' h =>
    exact .of_finalized hphase' ((hs.applying hphase).still (updateBannedState_still h)).unwritten_self
  | enter _ _ votes hphase _ _ hban h hphase' =>
    refine .of_finalized hphase' ?_
    rw [h]
    exact ((hs.applying hphase).still (updateBannedState_still hban)).enterNewEpoch rt _ votes
  | write newValidators hphase hphase' h =>
    exact .of_applying hphase' ((hs.finalized newValidators hphase).sound_commit h)

/-- The chain at the genesis block.  The first epoch and its votes come from another file. -/
def genesis (alloc : GenesisAlloc) (epoch : Epoch) (voteSet : Option EpochValidatorVoteSet) : Chain :=
  ⟨alloc.toState, 0, epoch, voteSet, none, none, [], .applying⟩

theorem genesis_sound (alloc : GenesisAlloc) (epoch : Epoch)
    (voteSet : Option EpochValidatorVoteSet) : (genesis alloc epoch voteSet).Sound :=
  .of_applying rfl alloc.toState_sound

variable {ok : Chain → Action → Prop}

/-- **The state is sound in every run.** -/
theorem Reaches.sound {alloc : GenesisAlloc} {epoch : Epoch}
    {voteSet : Option EpochValidatorVoteSet}
    (h : Reaches checkConsensusPubKey ok (genesis alloc epoch voteSet) c) : c.Sound :=
  h.invariant (genesis_sound alloc epoch voteSet) fun _ _ hs _ hstep => hstep.sound hs

/-! ## Single runs -/

/-- The moves of a list, each of which is tested before it is made. -/
def runsIf (checkConsensusPubKey : Address → Bytes → Bytes → Bool) (rt : Runtime)
    (ok : Chain → Action → Bool) (c : Chain) : List Action → (Chain → Bool) → Bool
  | [], test => test c
  | a :: l, test =>
    ok c a && match c.step checkConsensusPubKey rt a with
      | .error _ => false
      | .ok c' => c'.runsIf checkConsensusPubKey rt ok l test

/-- A run that has been evaluated, move by move. -/
theorem exists_of_runsIf {okTest : Chain → Action → Bool} {P : Chain → Prop} [DecidablePred P]
    {c₀ : Chain} (hok : ∀ c a, okTest c a = true → ok c a) (rt : Runtime) (l : List Action)
    (h : c₀.runsIf checkConsensusPubKey rt okTest l (fun c => decide (P c)) = true) :
    ∃ c, Reaches checkConsensusPubKey ok c₀ c ∧ P c := by
  have hrun (l : List Action) (c : Chain) (hc : Reaches checkConsensusPubKey ok c₀ c)
      (h : c.runsIf checkConsensusPubKey rt okTest l (fun c => decide (P c)) = true) :
      ∃ c, Reaches checkConsensusPubKey ok c₀ c ∧ P c := by
    induction l generalizing c with
    | nil => exact ⟨c, hc, of_decide_eq_true h⟩
    | cons a _ ih =>
      rw [runsIf, Bool.and_eq_true] at h
      obtain ⟨hmove, h⟩ := h
      split at h
      · cases h
      · rename_i c' hstep
        exact ih c' (hc.move rt a (hok c a hmove) hstep) h
  exact hrun l c₀ .start h

/-- A run without a condition on its moves. -/
theorem exists_of_run {P : Chain → Prop} [DecidablePred P] {c₀ : Chain} (rt : Runtime)
    (l : List Action)
    (h : c₀.runsIf checkConsensusPubKey rt (fun _ _ => true) l (fun c => decide (P c)) = true) :
    ∃ c, Reaches checkConsensusPubKey (fun _ _ => True) c₀ c ∧ P c :=
  exists_of_runsIf (fun _ _ _ => trivial) rt l h

/-- Nobody unregisters. -/
def stays : Action → Bool
  | .tx tx => tx.call != .unRegister
  | _ => true

/-- A candidate with a delegator. -/
def twoAccounts : GenesisAlloc :=
  [([1], ⟨1000000, 0, false, 0, 5, [([1], 5), ([2], 10)], true, 0⟩),
    ([2], ⟨1000000, 0, false, 0, 10, [], false, 0⟩)]

/-- The first epoch, which has one validator. -/
def firstEpoch : Epoch := ⟨0, 0, 0, 100, 0, 0, 0, 0, ⟨[⟨[9], [], 1, 0⟩]⟩⟩

/-- The same, but of four blocks. -/
def shortEpoch : Epoch := { firstEpoch with endBlock := 4 }

end Chain

end NeatPoS
