import NeatPoS.Epoch.Orders
import NeatPoS.Staking.Registry

/-!
# The candidate set and the candidates

The addresses of all candidates are kept under a key of the state trie, apart from the accounts with
their `Candidate` flags.  Registering and unregistering change both.  The set is read through a
cache, and there are two ways in which the cache does harm.

* An empty cache counts as not loaded.  When the only candidate unregisters, its address is taken
  from the cache, the cache is empty, and the next look at it loads the old set again; this is then
  written.
* `GetCandidateSet` returns the cache itself, and the epoch switch deletes from it the candidates
  that need no vote.  It does not mark the set as dirty, so that nothing is written as a rule.  But
  if a candidate was registered or unregistered in the same block, the set is dirty already, and
  what is left of it is written.

Besides, `ToBlock` sets the flags of the candidates in the genesis file and does not put them in the
set.  Where none of this happens, the set consists of the candidates, in any state that is reached
(`mem_candidateSet_iff`).
-/

set_option autoImplicit false

namespace NeatPoS

namespace CachedSet

/-- The cache is not loaded, or is the set that is stored. -/
def Settled (c : CachedSet) : Prop := (c.cache = ∅ ∧ c.dirty = false) ∨ c.stored = some c.cache

/-- Writing the set does not change what is stored. -/
def Harmless (c : CachedSet) : Prop := c.dirty = false ∨ c.stored = some c.cache

variable {c : CachedSet}

theorem Settled.harmless (h : c.Settled) : c.Harmless := by
  rcases h with ⟨-, h⟩ | h
  · exact .inl h
  · exact .inr h

theorem Harmless.write (h : c.Harmless) : c.write = c := by
  rw [CachedSet.write]
  split
  · rename_i hdirty
    rcases h with h | h
    · rw [h] at hdirty
      cases hdirty
    · rw [← h]
  · rfl

theorem settled_reload (c : CachedSet) : c.reload.Settled := .inl ⟨rfl, rfl⟩

theorem Settled.load_cache (h : c.Settled) : c.load.cache = c.stored.getD ∅ := by
  rw [load]
  split
  · rfl
  · rename_i hne
    rcases h with ⟨hempty, -⟩ | hstored
    · exact absurd hempty hne
    · rw [hstored, Option.getD_some]

theorem load_load (c : CachedSet) : c.load.load = c.load := by
  by_cases hc : c.cache = ∅
  · have hload : c.load = { c with cache := c.stored.getD ∅ } := by rw [load, if_pos hc]
    rw [hload, load]
    split <;> rfl
  · have hload : c.load = c := by rw [load, if_neg hc]
    rw [hload, hload]

/-- What is stored after an address has been added. -/
theorem Settled.write_mark (h : c.Settled) {a : Address} (ha : a ∉ c.stored.getD ∅) :
    (c.load.mark a).write.Settled ∧
      (c.load.mark a).write.stored.getD ∅ = insert a (c.stored.getD ∅) := by
  have hcache := h.load_cache
  have hmark : c.load.mark a = { c.load with cache := insert a c.load.cache, dirty := true } := by
    rw [mark, load_load, if_neg]
    rw [hcache]
    exact ha
  rw [hmark, write, if_pos rfl]
  refine ⟨.inr rfl, ?_⟩
  show insert a c.load.cache = _
  rw [hcache]

/-- What is stored after an address has been removed, if it was not the only one. -/
theorem Settled.write_clear (h : c.Settled) {a b : Address} (hb : b ∈ c.stored.getD ∅)
    (hne : b ≠ a) : (c.load.clearByAddress a).load.write.Settled ∧
      (c.load.clearByAddress a).load.write.stored.getD ∅ = (c.stored.getD ∅).erase a := by
  have hcache := h.load_cache
  have hrest : (c.load.clearByAddress a).cache ≠ ∅ := by
    show c.load.cache.erase a ≠ ∅
    rw [hcache]
    exact Finset.ne_empty_of_mem (Finset.mem_erase.2 ⟨hne, hb⟩)
  have hload : (c.load.clearByAddress a).load = c.load.clearByAddress a := by
    rw [load, if_neg hrest]
  have hdirty : (c.load.clearByAddress a).dirty = true := rfl
  rw [hload, write, if_pos hdirty]
  refine ⟨.inr rfl, ?_⟩
  show c.load.cache.erase a = _
  rw [hcache]

end CachedSet

namespace StateDB

/-- What is stored, and whether it will be written again, is not changed by the switch. -/
theorem stored_dirty_frame :
    SwitchFrame fun s => (s.candidateSet.stored, s.candidateSet.dirty) where
  getOrNewStateObject := fun s a => by rw [getOrNewStateObject_candidateSet]
  markStateObjectDirty := fun _ _ => rfl
  post := fun _ _ _ => rfl
  delegateRefundSet := fun _ _ => rfl
  bannedSet := fun _ _ => rfl
  setBanned := fun s a b => by rw [candidateSet_frame.setBanned s a b]
  setBannedTime := fun s a n => by rw [candidateSet_frame.setBannedTime s a n]
  setMinedBlocks := fun s a n => by rw [candidateSet_frame.setMinedBlocks s a n]
  clearCommission := fun s a => by rw [clearCommission, setAccount_candidateSet]
  getCandidateSet := by
    intro s
    show (s.candidateSet.load.stored, s.candidateSet.load.dirty) = _
    rw [CachedSet.load]
    split <;> rfl
  deleteCandidate := fun _ _ => rfl

/-- The set that is stored consists of the candidates, and each of them has a key. -/
structure Listed (s : StateDB) : Prop where
  keyed : Keyed s
  pubkey : ∀ a, s.isCandidate a = true → (s.accounts a).pubkey ≠ []
  stored : ∀ a, a ∈ s.candidateSet.stored.getD ∅ ↔ s.isCandidate a = true

variable {s s' : StateDB}

theorem Listed.congr (h : Listed s) (hreg : s'.registrations = s.registrations)
    (hnonces : s'.nonces = s.nonces) (hstored : s'.candidateSet.stored = s.candidateSet.stored) :
    Listed s' where
  keyed := h.keyed.congr hreg hnonces
  pubkey := by
    intro a hcand
    rw [registrations_isCandidate hreg] at hcand
    rw [registrations_pubkey hreg]
    exact h.pubkey a hcand
  stored := by
    intro a
    rw [hstored, registrations_isCandidate hreg]
    exact h.stored a

theorem WritesRegistry.isCandidate {t : StateDB} (h : WritesRegistry t s')
    (ht : ∀ a, t.isCandidate a = true → (t.accounts a).pubkey ≠ []) (a : Address) :
    s'.isCandidate a = true ↔ t.isCandidate a = true := by
  refine ⟨h.candidate_of a, fun hcand => ?_⟩
  rw [h.candidate a (ht a hcand)]
  exact hcand

theorem RegistryChange.pubkey_of_isCandidate {tx : StakingTx} {t : StateDB}
    (h : RegistryChange tx s t) (hs : ∀ a, s.isCandidate a = true → (s.accounts a).pubkey ≠ [])
    (a : Address) (hcand : t.isCandidate a = true) : (t.accounts a).pubkey ≠ [] := by
  have hsame (hreg : t.registrations a = s.registrations a) : (t.accounts a).pubkey ≠ [] := by
    have hcand' : s.isCandidate a = true := (congrArg Prod.fst hreg).symm.trans hcand
    rw [show (t.accounts a).pubkey = (s.accounts a).pubkey from congrArg Prod.snd hreg]
    exact hs a hcand'
  cases h with
  | keeps _ hreg => exact hsame (congrFun hreg a)
  | enrols _ key _ hlen hreg =>
    by_cases ha : a = tx.sender
    · have hself := congrFun hreg a
      rw [ha, Function.update_self] at hself
      rw [ha, show (t.accounts tx.sender).pubkey = key from congrArg Prod.snd hself]
      rintro rfl
      cases hlen
    · refine hsame ?_
      rw [hreg, Function.update_of_ne ha]
  | dismisses _ hreg =>
    by_cases ha : a = tx.sender
    · have hself := congrFun hreg a
      rw [ha, Function.update_self] at hself
      rw [ha, show t.isCandidate tx.sender = false from congrArg Prod.fst hself] at hcand
      cases hcand
    · refine hsame ?_
      rw [hreg, Function.update_of_ne ha]

/-- The set after a transaction. -/
theorem RegistryChange.stored {tx : StakingTx} {t : StateDB} (h : RegistryChange tx s t)
    (hs : Listed s) (hsettled : s.candidateSet.Settled)
    (hok : tx.call = .unRegister → ∃ b, b ≠ tx.sender ∧ s.isCandidate b = true) :
    t.candidateSet.write.Settled ∧
      ∀ a, a ∈ t.candidateSet.write.stored.getD ∅ ↔ t.isCandidate a = true := by
  cases h with
  | keeps _ hreg hset =>
    rw [hset, hsettled.harmless.write]
    refine ⟨hsettled, fun a => ?_⟩
    rw [registrations_isCandidate hreg]
    exact hs.stored a
  | enrols _ key hnot _ hreg hset =>
    have hnew : tx.sender ∉ s.candidateSet.stored.getD ∅ := by
      rw [hs.stored, hnot]
      decide
    obtain ⟨hsettled', hstored⟩ := hsettled.write_mark hnew
    rw [hset]
    refine ⟨hsettled', fun a => ?_⟩
    have hcand : t.isCandidate a = (Function.update s.registrations tx.sender (true, key) a).1 :=
      congrArg Prod.fst (congrFun hreg a)
    rw [hstored, Finset.mem_insert, hcand]
    by_cases ha : a = tx.sender
    · rw [ha, Function.update_self]
      simp
    · rw [Function.update_of_ne ha, hs.stored]
      simp only [ha, false_or]
      rfl
  | dismisses hcall hreg hset =>
    obtain ⟨b, hb, hbcand⟩ := hok hcall
    obtain ⟨hsettled', hstored⟩ := hsettled.write_clear ((hs.stored b).2 hbcand) hb
    rw [hset]
    refine ⟨hsettled', fun a => ?_⟩
    have hcand : t.isCandidate a = (Function.update s.registrations tx.sender (false, []) a).1 :=
      congrArg Prod.fst (congrFun hreg a)
    rw [hstored, Finset.mem_erase, hcand]
    by_cases ha : a = tx.sender
    · rw [ha, Function.update_self]
      simp
    · rw [Function.update_of_ne ha, hs.stored]
      simp only [ne_eq, ha, not_false_eq_true, true_and]
      rfl

/-- What is stored does not change when a block is written. -/
theorem Listed.commit (h : Listed s) (hharmless : s.candidateSet.Harmless)
    (hcommit : s.commit = .ok s') : Listed s' ∧ s'.candidateSet.Settled := by
  obtain ⟨hkeyed, _, hwrites, hreg, hset⟩ := h.keyed.commit hcommit
  have hcand (a : Address) : s'.isCandidate a = true ↔ s.isCandidate a = true := by
    rw [registrations_isCandidate hreg]
    exact hwrites.isCandidate h.pubkey a
  refine ⟨⟨hkeyed, fun a ha => ?_, fun a => ?_⟩, ?_⟩
  · rw [registrations_pubkey hreg, hwrites.pubkey]
    exact h.pubkey a ((hcand a).1 ha)
  · rw [hcand, ← h.stored, hset, hwrites.candidateSet, hharmless.write]
    rfl
  · rw [hset]
    exact CachedSet.settled_reload _

theorem allocated_isCandidate (alloc : GenesisAlloc)
    (hnone : ∀ entry ∈ alloc, entry.2.candidate = false)
    (s : StateDB) (h : ∀ a, s.isCandidate a = false) (a : Address) :
    (alloc.foldl allocate s).isCandidate a = false := by
  induction alloc generalizing s with
  | nil => exact h a
  | cons entry _ ih =>
    refine ih (fun e he => hnone e (List.mem_cons_of_mem entry he)) _ fun b => ?_
    have hreg := allocate_registrations s entry
    rw [hnone entry List.mem_cons_self, if_neg Bool.false_ne_true] at hreg
    rw [registrations_isCandidate hreg]
    exact h b

end StateDB

namespace Chain

variable {checkConsensusPubKey : Address → Bytes → Bytes → Bool} {rt : Runtime} {c c' : Chain}

/-- A candidate unregisters only if there is another one, and no candidate has been registered or
unregistered in the block in which the epoch is switched. -/
def KeepsCandidateSet (c : Chain) : Action → Prop
  | .tx tx => tx.call = .unRegister → ∃ b, b ≠ tx.sender ∧ c.db.isCandidate b = true
  | .finalize _ => c.height + 1 = c.epoch.endBlock → c.db.candidateSet.dirty = false
  | _ => True

/-- The set that is stored consists of the candidates, and no cache is about to spoil it. -/
structure Listed (c : Chain) : Prop where
  sound : c.Sound
  listed : c.db.Listed
  settled : c.phase = .applying → c.db.candidateSet.Settled
  harmless : c.db.candidateSet.Harmless

theorem Listed.of_settled (hsound : c.Sound) (hlisted : c.db.Listed)
    (hsettled : c.db.candidateSet.Settled) : c.Listed :=
  ⟨hsound, hlisted, fun _ => hsettled, hsettled.harmless⟩

theorem DbStep.listed {a : Action} (hI : c.Listed) (hok : KeepsCandidateSet c a)
    (h : DbStep checkConsensusPubKey rt c c' a) : c'.Listed := by
  have hsound := h.sound hI.sound
  cases h with
  | tx _ _ hphase _ htx =>
    obtain ⟨⟨_, hchange, hwrites⟩, hkeyed, -⟩ :=
      StateDB.applyTransactionEx_registry (hI.sound.applying hphase) hI.listed.keyed htx
    have hpubkey := hchange.pubkey_of_isCandidate hI.listed.pubkey
    obtain ⟨hsettled, hstored⟩ := hchange.stored hI.listed (hI.settled hphase) hok
    refine .of_settled hsound ⟨hkeyed, fun a ha => ?_, fun a => ?_⟩ ?_
    · rw [hwrites.pubkey]
      exact hpubkey a ((hwrites.isCandidate hpubkey a).1 ha)
    · rw [hwrites.isCandidate hpubkey, hwrites.candidateSet]
      exact hstored a
    · rw [hwrites.candidateSet]
      exact hsettled
  | reward _ _ _ hphase _ h =>
    have hset : c'.db.candidateSet = c.db.candidateSet := by
      rw [h]
      exact StateDB.candidateSet_frame.addRewardBalanceByDelegateAddress ..
    refine .of_settled hsound (hI.listed.congr ?_ ?_ (by rw [hset])) ?_
    · rw [h, StateDB.registrations_frame.addRewardBalanceByDelegateAddress]
    · rw [h, StateDB.nonces_frame.addRewardBalanceByDelegateAddress]
    · rw [hset]
      exact hI.settled hphase
  | nextEpoch _ hphase h =>
    refine ⟨hsound, ?_, fun happ => ?_, ?_⟩
    · rw [h]
      exact hI.listed
    · rw [h]
      exact hI.settled (hphase ▸ happ)
    · rw [h]
      exact hI.harmless
  | stay _ hphase _ h =>
    have hset : c'.db.candidateSet = c.db.candidateSet :=
      StateDB.candidateSet_frame.updateBannedState _ h
    refine .of_settled hsound (hI.listed.congr ?_ ?_ (by rw [hset])) ?_
    · rw [StateDB.registrations_frame.updateBannedState _ h]
    · rw [StateDB.nonces_frame.updateBannedState _ h]
    · rw [hset]
      exact hI.settled hphase
  | enter _ _ _ _ hend _ hban h hphase' =>
    have hset : (c'.db.candidateSet.stored, c'.db.candidateSet.dirty) =
        (c.db.candidateSet.stored, c.db.candidateSet.dirty) := by
      rw [h, StateDB.stored_dirty_frame.enterNewEpoch,
        StateDB.stored_dirty_frame.updateBannedState _ hban]
    refine ⟨hsound, hI.listed.congr ?_ ?_ (congrArg Prod.fst hset), fun happ => ?_, .inl ?_⟩
    · rw [h, StateDB.registrations_frame.enterNewEpoch,
        StateDB.registrations_frame.updateBannedState _ hban]
    · rw [h, StateDB.nonces_frame.enterNewEpoch, StateDB.nonces_frame.updateBannedState _ hban]
    · rw [hphase'] at happ
      cases happ
    · exact (congrArg Prod.snd hset).trans (hok hend)
  | write _ _ _ h =>
    obtain ⟨hlisted, hsettled⟩ := hI.listed.commit hI.harmless h
    exact .of_settled hsound hlisted hsettled

theorem genesis_listed {alloc : GenesisAlloc} (hnone : ∀ entry ∈ alloc, entry.2.candidate = false)
    (epoch : Epoch) (voteSet : Option EpochValidatorVoteSet) :
    (genesis alloc epoch voteSet).Listed := by
  have hcand (a : Address) : alloc.toState.isCandidate a = false :=
    StateDB.allocated_isCandidate alloc hnone .new (fun _ => rfl) a
  have hset : alloc.toState.candidateSet = ⟨∅, none, false⟩ := by
    show (alloc.foldl StateDB.allocate .new).candidateSet.write.reload = _
    rw [(StateDB.allocated_sets alloc .new).2]
    rfl
  refine .of_settled (genesis_sound alloc epoch voteSet) ⟨genesis_keyed alloc epoch voteSet, ?_,
    ?_⟩ ?_
  · intro a ha
    exact absurd (ha.symm.trans (hcand a)) (by decide)
  · intro a
    show a ∈ alloc.toState.candidateSet.stored.getD ∅ ↔ alloc.toState.isCandidate a = true
    rw [hset, hcand]
    simp
  · show alloc.toState.candidateSet.Settled
    rw [hset]
    exact .inl ⟨rfl, rfl⟩

/-- **The candidate set consists of the candidates.** -/
theorem mem_candidateSet_iff {alloc : GenesisAlloc}
    (hnone : ∀ entry ∈ alloc, entry.2.candidate = false)
    (epoch : Epoch) (voteSet : Option EpochValidatorVoteSet)
    (h : Reaches checkConsensusPubKey KeepsCandidateSet (genesis alloc epoch voteSet) c)
    (a : Address) :
    a ∈ c.db.candidateSet.stored.getD ∅ ↔ c.db.isCandidate a = true := by
  have hinv : c.Listed :=
    h.invariant (genesis_listed hnone epoch voteSet) fun _ _ hI hok hstep => hstep.listed hI hok
  exact hinv.listed.stored a

/-! ## Runs that keep the set, and runs that do not -/

namespace TwoCandidates

/-- Two accounts that can pay for a registration. -/
def alloc : GenesisAlloc :=
  [([1], ⟨2000000000000000000, 0, false, 0, 0, [], false, 0⟩),
    ([2], ⟨2000000000000000000, 0, false, 0, 0, [], false, 0⟩)]

/-- The epoch after it. -/
def nextEpoch : Epoch := { firstEpoch with number := 1, startBlock := 5, endBlock := 100 }

/-- A registration. -/
def register (sender : Address) (nonce : Nat) : Action :=
  .tx ⟨sender, nonce, 1000000000000000000, 21000, 1, .register [7] [] 0⟩

/-- Two empty blocks, and a third one with a registration. -/
def firstBlocks : List Action :=
  [.finalize none, .write, .finalize none, .write, .nextEpoch nextEpoch, register [1] 0]

/-- In the third block both accounts register, and one of them unregisters again. -/
def keeps : List Action :=
  firstBlocks ++ [register [2] 0, .tx ⟨[1], 1, 0, 21000, 1, .unRegister⟩, .finalize none, .write]

/-- The condition of the moves, for these two accounts. -/
def test (c : Chain) : Action → Bool
  | .tx tx => tx.sender == [1] && c.db.isCandidate [2] || tx.call != .unRegister
  | .finalize _ => c.height + 1 != c.epoch.endBlock || !c.db.candidateSet.dirty
  | _ => true

theorem keepsCandidateSet_of_test (c : Chain) (a : Action) (h : test c a = true) :
    KeepsCandidateSet c a := by
  cases a with
  | tx =>
    intro hcall
    simp only [test, hcall, bne_self_eq_false, Bool.or_false, Bool.and_eq_true, beq_iff_eq] at h
    refine ⟨[2], ?_, h.2⟩
    rw [h.1]
    decide
  | finalize =>
    intro hend
    simpa [test, hend] using h
  | _ => trivial

theorem mem_candidateSet_iff_keeps :
    ∃ c, Reaches (fun _ _ _ => true) KeepsCandidateSet (genesis alloc shortEpoch none) c ∧
      c.height = 3 ∧ c.db.isCandidate [2] = true ∧
      ([2] ∈ c.db.candidateSet.stored.getD ∅ ↔ c.db.isCandidate [2] = true) := by
  have hnone : ∀ entry ∈ alloc, entry.2.candidate = false := by decide
  obtain ⟨c, hc, hheight, hcand⟩ : ∃ c, Reaches (fun _ _ _ => true) KeepsCandidateSet
      (genesis alloc shortEpoch none) c ∧ c.height = 3 ∧ c.db.isCandidate [2] = true :=
    exists_of_runsIf keepsCandidateSet_of_test .sorted keeps (by decide +kernel)
  exact ⟨c, hc, hheight, hcand, mem_candidateSet_iff hnone shortEpoch none hc [2]⟩

/-- The only candidate unregisters and stays in the set; and a candidate that is about to become a
validator is taken from the set when another one registers in the last block of the epoch. -/
theorem candidateSet_ne :
    (∃ c, Reaches (fun _ _ _ => true) (fun _ _ => True) (genesis alloc shortEpoch none) c ∧
      c.height = 3 ∧ [1] ∈ c.db.candidateSet.stored.getD ∅ ∧ c.db.isCandidate [1] = false) ∧
    ∃ c, Reaches (fun _ _ _ => true) (fun _ _ => True) (genesis alloc shortEpoch none) c ∧
      c.height = 4 ∧ [1] ∉ c.db.candidateSet.stored.getD ∅ ∧ c.db.isCandidate [1] = true := by
  constructor
  · exact exists_of_run .sorted (firstBlocks ++
      [.tx ⟨[1], 1, 0, 21000, 1, .unRegister⟩, .finalize none, .write]) (by decide +kernel)
  · exact exists_of_run .sorted (firstBlocks ++
      [.finalize none, .write, register [2] 0, .finalize none, .write]) (by decide +kernel)

end TwoCandidates

end Chain

end NeatPoS
