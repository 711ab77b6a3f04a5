import NeatPoS.Epoch.Orders
import NeatPoS.Staking.Registry

/-!
# The keys of the votes

A vote for the next epoch carries a copy of the key of its candidate, and it is with this key that
the candidate enters the validator set.  The copy is made when the vote is stored, by the operation
that registering or a delegation leaves behind.  From then on `UpdateNextEpoch` only changes the
amount.

So the copy is that of the registered key as long as the candidate does not unregister
(`nextVotes_pubkey`).  One that does takes its key out of the state and leaves the vote behind, and
one that registers again with another key has its old key in the vote (`nextVotes_pubkey_ne`).
-/

set_option autoImplicit false

namespace NeatPoS

namespace EpochValidatorVoteSet

/-- Where the key of a vote comes from when the votes are updated. -/
theorem updateNextEpoch_pubKey {voteSet : EpochValidatorVoteSet} {op : UpdateNextEpochOp}
    {v : EpochValidatorVote} (hv : v ∈ (voteSet.updateNextEpoch op).votes) :
    (∃ w ∈ voteSet.votes, w.address = v.address ∧ w.pubKey = v.pubKey) ∨
      (v.address = op.source ∧ v.pubKey = some op.pubKey) := by
  rw [updateNextEpoch] at hv
  split at hv
  · obtain ⟨w, hw, rfl⟩ := List.mem_map.1 hv
    refine .inl ⟨w, hw, ?_⟩
    split <;> exact ⟨rfl, rfl⟩
  · rcases List.mem_append.1 hv with hv | hv
    · exact .inl ⟨v, (List.mem_filter.1 hv).1, rfl, rfl⟩
    · obtain rfl := List.mem_singleton.1 hv
      exact .inr ⟨rfl, rfl⟩

theorem foldl_updateNextEpoch_pubKey {ops : List UpdateNextEpochOp} {voteSet : EpochValidatorVoteSet}
    {v : EpochValidatorVote} (hv : v ∈ (ops.foldl updateNextEpoch voteSet).votes) :
    (∃ w ∈ voteSet.votes, w.address = v.address ∧ w.pubKey = v.pubKey) ∨
      ∃ op ∈ ops, v.address = op.source ∧ v.pubKey = some op.pubKey := by
  induction ops generalizing voteSet with
  | nil => exact .inl ⟨v, hv, rfl, rfl⟩
  | cons op _ ih =>
    rcases ih hv with ⟨w, hw, haddr, hkey⟩ | ⟨op', hop, hsource⟩
    · rcases updateNextEpoch_pubKey hw with ⟨u, hu, haddr', hkey'⟩ | ⟨haddr', hkey'⟩
      · exact .inl ⟨u, hu, haddr'.trans haddr, hkey'.trans hkey⟩
      · exact .inr ⟨op, List.mem_cons_self, haddr.symm.trans haddr', hkey.symm.trans hkey'⟩
    · exact .inr ⟨op', List.mem_cons_of_mem op hop, hsource⟩

end EpochValidatorVoteSet

namespace Chain

variable {checkConsensusPubKey : Address → Bytes → Bytes → Bool} {rt : Runtime} {c c' : Chain}

/-- The votes for the next epoch. -/
def nextVotes (c : Chain) : List EpochValidatorVote :=
  match c.nextEpoch with
  | some (_, some voteSet) => voteSet.votes
  | _ => []

/-! ## What a move does to the votes -/

theorem applyOps_votes (h : c.applyOps = .ok c') :
    c'.ops = [] ∧ ∀ v ∈ c'.nextVotes,
      (∃ w ∈ c.nextVotes, w.address = v.address ∧ w.pubKey = v.pubKey) ∨
        ∃ op ∈ c.ops, v.address = op.source ∧ v.pubKey = some op.pubKey := by
  rw [applyOps] at h
  split at h
  · rename_i hnext
    split at h
    · rename_i hops
      cases h
      exact ⟨List.isEmpty_iff.1 hops, fun v hv => .inl ⟨v, hv, rfl, rfl⟩⟩
    · cases h
  · rename_i epoch voteSet hnext
    cases h
    refine ⟨rfl, fun v hv => ?_⟩
    by_cases hops : c.ops.isEmpty = true
    · simp only [nextVotes, hops, if_true] at hv
      exact .inl ⟨v, by rw [nextVotes, hnext]; exact hv, rfl, rfl⟩
    simp only [nextVotes, hops] at hv
    rcases EpochValidatorVoteSet.foldl_updateNextEpoch_pubKey hv with ⟨w, hw, hw'⟩ | hop
    · refine .inl ⟨w, ?_, hw'⟩
      cases voteSet with
      | none => cases hw
      | some =>
        rw [nextVotes, hnext]
        exact hw
    · exact .inr hop

theorem switchEpoch_votes (c : Chain) (newValidators : Option ValidatorSet) :
    (c.switchEpoch newValidators).ops = c.ops ∧
      ∀ v ∈ (c.switchEpoch newValidators).nextVotes, v ∈ c.nextVotes := by
  unfold switchEpoch
  split
  · exact ⟨rfl, fun v hv => absurd hv List.not_mem_nil⟩
  · exact ⟨rfl, fun v hv => hv⟩

/-- The votes and the operations after a move come from those before it, and from the
transaction. -/
theorem step_votes {a : Action} (h : c.step checkConsensusPubKey rt a = .ok c') :
    (∀ v ∈ c'.nextVotes, (∃ w ∈ c.nextVotes, w.address = v.address ∧ w.pubKey = v.pubKey) ∨
      ∃ op ∈ c.ops, v.address = op.source ∧ v.pubKey = some op.pubKey) ∧
    ∀ op ∈ c'.ops, op ∈ c.ops ∨ ∃ tx ops, a = .tx tx ∧ op ∈ ops ∧
      applyTransactionEx rt (c.view checkConsensusPubKey) tx c.db = .ok (c'.db, ops) := by
  have hsame (hnext : c'.nextVotes = c.nextVotes) (v : EpochValidatorVote) (hv : v ∈ c'.nextVotes) :
      (∃ w ∈ c.nextVotes, w.address = v.address ∧ w.pubKey = v.pubKey) ∨
        ∃ op ∈ c.ops, v.address = op.source ∧ v.pubKey = some op.pubKey :=
    .inl ⟨v, hnext ▸ hv, rfl, rfl⟩
  cases a with
  | tx tx =>
    simp only [step] at h
    split at h
    · cases h
    split at h
    · cases h
    rename_i db ops htx
    cases h
    refine ⟨hsame rfl, fun op hop => ?_⟩
    rcases List.mem_append.1 hop with hop | hop
    · exact .inl hop
    · exact .inr ⟨tx, ops, rfl, hop, htx⟩
  | reward =>
    simp only [step] at h
    split at h
    · cases h
    · cases h
      exact ⟨hsame rfl, fun op hop => .inl hop⟩
  | nextEpoch =>
    simp only [step] at h
    split at h
    · cases h
      exact ⟨fun v hv => absurd hv List.not_mem_nil, fun op hop => .inl hop⟩
    · cases h
      exact ⟨hsame rfl, fun op hop => .inl hop⟩
  | finalize =>
    simp only [step] at h
    split at h
    · cases h
    split at h
    · cases h
    split at h
    · cases h
      exact ⟨hsame rfl, fun op hop => .inl hop⟩
    · cases h
      exact ⟨hsame rfl, fun op hop => .inl hop⟩
  | write =>
    obtain ⟨newValidators, db, c₁, -, -, hops, rfl⟩ := step_write_ok h
    obtain ⟨hnil, hvotes⟩ := applyOps_votes hops
    obtain ⟨hops', hvotes'⟩ := switchEpoch_votes c₁ newValidators
    refine ⟨fun v hv => hvotes v (hvotes' v hv), fun op hop => ?_⟩
    rw [hops', hnil] at hop
    cases hop

/-! ## Runs -/

/-- A candidate that has a vote for the next epoch, or is about to get one, does not unregister. -/
def KeepsVoters (c : Chain) : Action → Prop
  | .tx tx => tx.call = .unRegister →
      (∀ v ∈ c.nextVotes, v.address ≠ tx.sender) ∧ ∀ op ∈ c.ops, op.source ≠ tx.sender
  | _ => True

/-- The copies of the keys in the votes, and in the operations that make votes, are those of the
state. -/
structure KeysCurrent (c : Chain) : Prop where
  sound : c.Sound
  keyed : c.db.Keyed
  votes : ∀ v ∈ c.nextVotes, v.pubKey = some (c.db.accounts v.address).pubkey ∧
    (c.db.accounts v.address).pubkey ≠ []
  ops : ∀ op ∈ c.ops, op.pubKey = (c.db.accounts op.source).pubkey ∧ op.pubKey ≠ []

theorem KeysCurrent.step {a : Action} (hI : c.KeysCurrent) (hok : KeepsVoters c a)
    (h : c.step checkConsensusPubKey rt a = .ok c') : c'.KeysCurrent := by
  have hdb := step_ok h
  obtain ⟨hvotes, hops⟩ := step_votes h
  have hsound := hdb.sound hI.sound
  -- the keys that there are copies of stay as they are
  have hmain : c'.db.Keyed ∧ (∀ v ∈ c.nextVotes,
      (c'.db.accounts v.address).pubkey = (c.db.accounts v.address).pubkey) ∧
      (∀ op ∈ c.ops, (c'.db.accounts op.source).pubkey = (c.db.accounts op.source).pubkey) ∧
      ∀ op ∈ c'.ops, op ∈ c.ops ∨
        (op.pubKey = (c'.db.accounts op.source).pubkey ∧ op.pubKey ≠ []) := by
    by_cases ha : ∃ tx, a = .tx tx
    · obtain ⟨tx, rfl⟩ := ha
      cases hdb with
      | tx _ ops hphase _ htx =>
        obtain ⟨⟨_, hchange, hwrites⟩, hkeyed, hnew⟩ :=
          StateDB.applyTransactionEx_registry (hI.sound.applying hphase) hI.keyed htx
        refine ⟨hkeyed, fun v hv => ?_, fun op hop => ?_, fun op hop => ?_⟩
        · rw [hwrites.pubkey]
          exact hchange.pubkey_eq hI.keyed (hI.votes v hv).2 fun hcall => (hok hcall).1 v hv
        · rw [hwrites.pubkey]
          refine hchange.pubkey_eq hI.keyed ?_ fun hcall => (hok hcall).2 op hop
          rw [← (hI.ops op hop).1]
          exact (hI.ops op hop).2
        · rcases hops op hop with hop | ⟨tx', _, htx', hop, happly⟩
          · exact .inl hop
          · cases htx'
            rw [htx] at happly
            cases happly
            exact .inr (hnew op hop)
    · rw [not_exists] at ha
      obtain ⟨hkeyed, hpubkey⟩ := hdb.registry hI.keyed ha
      refine ⟨hkeyed, fun v _ => hpubkey v.address, fun op _ => hpubkey op.source, fun op hop => ?_⟩
      rcases hops op hop with hop | ⟨tx', _, htx', -⟩
      · exact .inl hop
      · exact absurd htx' (ha tx')
  obtain ⟨hkeyed, hvoted, hpending, hnew⟩ := hmain
  refine ⟨hsound, hkeyed, fun v hv => ?_, fun op hop => ?_⟩
  · rcases hvotes v hv with ⟨w, hw, haddr, hkey⟩ | ⟨op, hop, haddr, hkey⟩
    · rw [← haddr, ← hkey, hvoted w hw]
      exact hI.votes w hw
    · rw [haddr, hkey, hpending op hop, ← (hI.ops op hop).1]
      exact ⟨rfl, (hI.ops op hop).2⟩
  · rcases hnew op hop with hop | hop
    · rw [hpending op hop]
      exact hI.ops op hop
    · exact hop

theorem genesis_keysCurrent (alloc : GenesisAlloc) (epoch : Epoch)
    (voteSet : Option EpochValidatorVoteSet) : (genesis alloc epoch voteSet).KeysCurrent where
  sound := genesis_sound alloc epoch voteSet
  keyed := genesis_keyed alloc epoch voteSet
  votes := fun _ hv => absurd hv List.not_mem_nil
  ops := fun _ hop => absurd hop List.not_mem_nil

theorem Reaches.keysCurrent {alloc : GenesisAlloc} {epoch : Epoch}
    {voteSet : Option EpochValidatorVoteSet}
    (h : Reaches checkConsensusPubKey KeepsVoters (genesis alloc epoch voteSet) c) : c.KeysCurrent := by
  induction h with
  | start => exact genesis_keysCurrent alloc epoch voteSet
  | move _ _ _ hok hstep ih => exact ih.step hok hstep

/-- **The keys of the votes are current**, in any run in which candidates with a vote do not
unregister. -/
theorem nextVotes_pubkey (alloc : GenesisAlloc) (epoch : Epoch) (voteSet : Option EpochValidatorVoteSet)
    (h : Reaches checkConsensusPubKey KeepsVoters (genesis alloc epoch voteSet) c)
    (v : EpochValidatorVote) (hv : v ∈ c.nextVotes) :
    v.pubKey = some (c.db.accounts v.address).pubkey :=
  (h.keysCurrent.votes v hv).1

/-- A candidate that unregisters leaves a vote with a key that is no longer registered. -/
theorem KeysCurrent.unRegister {tx : StakingTx} (hI : c.KeysCurrent) (hcall : tx.call = .unRegister)
    {v : EpochValidatorVote} (hv : v ∈ c.nextVotes) (hsender : v.address = tx.sender)
    (h : c.step checkConsensusPubKey rt (.tx tx) = .ok c') :
    v ∈ c'.nextVotes ∧ v.pubKey ≠ some (c'.db.accounts v.address).pubkey := by
  have hdb := step_ok h
  have hvotes : c'.nextVotes = c.nextVotes := by
    simp only [Chain.step] at h
    split at h
    · cases h
    · split at h
      · cases h
      · cases h
        rfl
  refine ⟨hvotes ▸ hv, ?_⟩
  cases hdb with
  | tx _ _ hphase _ htx =>
    obtain ⟨⟨t, hchange, hwrites⟩, -⟩ :=
      StateDB.applyTransactionEx_registry (hI.sound.applying hphase) hI.keyed htx
    cases hchange with
    | keeps hne | enrols hne => exact absurd hcall hne
    | dismisses _ hreg =>
      have hself := congrFun hreg tx.sender
      rw [Function.update_self] at hself
      have hnone : (t.accounts tx.sender).pubkey = [] := congrArg Prod.snd hself
      obtain ⟨hkey, hne⟩ := hI.votes v hv
      rw [hwrites.pubkey, hsender, hnone, hkey]
      intro heq
      exact hne (Option.some.inj heq)

/-! ## A candidate that comes back with another key -/

namespace Rekeyed

/-- An account that can pay for a registration. -/
def alloc : GenesisAlloc := [([1], ⟨2000000000000000000, 0, false, 0, 0, [], false, 0⟩)]

/-- The epoch after the first one. -/
def secondEpoch : Epoch := { firstEpoch with number := 1, startBlock := 101, endBlock := 200 }

/-- Two empty blocks, the next epoch, and a block in which the account is registered with a key. -/
def registers : List Action :=
  [.finalize none, .write, .finalize none, .write, .nextEpoch secondEpoch,
    .tx ⟨[1], 0, 1000000000000000000, 21000, 1, .register [7] [] 0⟩, .finalize none, .write]

/-- In the next block it unregisters, and registers with another key. -/
def returns : List Action :=
  [.tx ⟨[1], 1, 0, 21000, 1, .unRegister⟩,
    .tx ⟨[1], 2, 1000000000000000000, 21000, 1, .register [8] [] 0⟩, .finalize none, .write]

theorem nextVotes_pubkey_registers :
    ∃ c, Reaches (fun _ _ _ => true) KeepsVoters (genesis alloc firstEpoch none) c ∧
      ∃ v ∈ c.nextVotes, v.address = [1] ∧ v.pubKey = some (c.db.accounts v.address).pubkey := by
  have hok (c : Chain) (a : Action) (ha : stays a = true) : KeepsVoters c a := by
    cases a <;> simp_all [stays, KeepsVoters]
  obtain ⟨c, hc, v, hv, haddr⟩ : ∃ c, Reaches (fun _ _ _ => true) KeepsVoters
      (genesis alloc firstEpoch none) c ∧ ∃ v ∈ c.nextVotes, v.address = [1] :=
    exists_of_runsIf hok .sorted registers (by decide +kernel)
  exact ⟨c, hc, v, hv, haddr, nextVotes_pubkey _ _ _ hc v hv⟩

/-- The vote keeps the first key, and the account has the second. -/
theorem nextVotes_pubkey_ne :
    ∃ c, Reaches (fun _ _ _ => true) (fun _ _ => True) (genesis alloc firstEpoch none) c ∧
      ∃ v ∈ c.nextVotes, v.address = [1] ∧ c.db.isCandidate [1] = true ∧
        v.pubKey = some (blsPubKey [7]) ∧ (c.db.accounts [1]).pubkey = blsPubKey [8] :=
  exists_of_run .sorted (registers ++ returns) (by decide +kernel)

end Rekeyed

end Chain

end NeatPoS
