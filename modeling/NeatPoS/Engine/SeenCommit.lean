import NeatPoS.Core.Genesis
import NeatPoS.Engine.Bans
import NeatPoS.Epoch.Orders

/-!
# What a block depends on beyond the hash of its parent

The hash of a header leaves out its extra data, and with it the commit that a node has seen for the
block.  `Finalize` reads that commit, of the parent: it counts the validators whose bits are set.
Nodes that have seen different commits for the same block therefore come to different states and
roots (`TwoCommits.not_forall_finalize_eq`), unless the block is one that does not count, or the
commits come to the same: what matters is how often each validator has signed, and whether a bit is
set that no validator belongs to (`CountAlike`).
-/

set_option autoImplicit false

namespace NeatPoS

/-- Two commits come to the same: they credit the same validators as often, and have no bit beyond
the last validator, or both have one. -/
def CountAlike (vs : List Validator) (bits bits' : List Bool) : Prop :=
  overruns bits vs = overruns bits' vs ∧ (signers bits vs).Perm (signers bits' vs)

theorem StateDB.foldl_countMinedBlock_perm (s : StateDB) {l l' : List Address} (h : l.Perm l') :
    l.foldl countMinedBlock s = l'.foldl countMinedBlock s := by
  rw [foldl_countMinedBlock, foldl_countMinedBlock]
  simp only [h.mem_iff, h.count_eq, List.toFinset_eq_of_perm _ _ h]

theorem StateDB.countMinedBlocks_alike (s : StateDB) {vs : List Validator} {bits bits' : List Bool}
    (h : CountAlike vs bits bits') : s.countMinedBlocks bits vs = s.countMinedBlocks bits' vs := by
  rw [countMinedBlocks_eq, countMinedBlocks_eq, h.1, foldl_countMinedBlock_perm s h.2]

/-! ## Two parents of one hash -/

/-- The extra data of a header that is verified can be read. -/
theorem Backend.Accepts.extra_isSome {sb : Backend} {parents : List Header} {h : Header}
    (ha : sb.Accepts parents h) : ∃ extra, extractNeatconExtra sb.lib h = some extra := by
  cases hextra : extractNeatconExtra sb.lib h with
  | some extra => exact ⟨extra, rfl⟩
  | none =>
    rw [Accepts, verifyHeader, hextra] at ha
    cases hnum : h.number <;> cases htime : h.time <;>
      simp [hnum, htime, bind, Except.bind, pure, Except.pure, throw, throwThe,
        MonadExceptOf.throw] at ha

/-- A block that counts nobody does not look at the commit. -/
theorem updateBannedState_of_skips {epoch : Epoch} {number : Nat} (h : epoch.Skips number)
    (commit commit' : Option Commit) (s : StateDB) :
    updateBannedState epoch number commit s = updateBannedState epoch number commit' s := by
  rw [updateBannedState, updateBannedState]
  by_cases hstart : number ≤ 1 ∨ number = epoch.startBlock
  · rw [if_pos hstart, if_pos hstart]
  rw [if_neg hstart, if_neg hstart]
  by_cases hend : number = epoch.endBlock
  · rw [if_pos hend, if_pos hend]
  have hlast : number = prevU64 epoch.endBlock := by
    rcases h with h | h | h | h
    · exact absurd (.inl h) hstart
    · exact absurd (.inr h) hstart
    · exact absurd h hend
    · exact h
  rw [if_neg hend, if_neg hend, if_pos hlast, if_pos hlast]

/-- **When a block depends on nothing but the hash of its parent.**  Two verified parents lead to
the same result if the block counts nobody, or if their seen commits come to the same. -/
theorem finalize_parents_eq {sb : Backend} {parents parents' : List Header} {p p' : Header}
    (hp : sb.Accepts parents p) (hp' : sb.Accepts parents' p') (rt : Runtime) (env : RewardEnv)
    (launchSideChains : Nat → StateDB → StateDB) {epoch : Epoch}
    (nextEpoch : Option (Option EpochValidatorVoteSet)) {number : Nat} (coinbase : Address)
    (totalGasFee : Int) (s : StateDB) (h : epoch.Skips number ∨
      CountAlike epoch.validators.validators (seenBits sb.lib p) (seenBits sb.lib p')) :
    finalize rt sb.lib env launchSideChains epoch nextEpoch number coinbase (some p) totalGasFee s =
      finalize rt sb.lib env launchSideChains epoch nextEpoch number coinbase (some p')
        totalGasFee s := by
  obtain ⟨extra, hextra⟩ := hp.extra_isSome
  obtain ⟨extra', hextra'⟩ := hp'.extra_isSome
  rw [finalize, finalize, updateValidatorStatus_eq hextra, updateValidatorStatus_eq hextra']
  by_cases hskips : epoch.Skips number
  · rw [updateBannedState_of_skips hskips extra.seenCommit extra'.seenCommit]
  · have halike := h.resolve_left hskips
    simp only [seenBits, hextra, hextra', Option.bind_some] at halike
    rw [updateBannedState_of_not_skips hskips, updateBannedState_of_not_skips hskips,
      StateDB.countMinedBlocks_alike _ halike]

namespace TwoCommits

/-- Two validators, one of which has nine tenths of the power. -/
def epoch : Epoch := ⟨0, 0, 0, 99, 0, 0, 0, 0, ValidatorSet.lopsided⟩

/-- Their deposits. -/
def deposits : StateDB := (StateDB.new.add (.depositBalance [1]) 1).add (.depositBalance [2]) 9

/-- The commit for a block, signed by the stronger validator or by both. -/
def commit (both : Bool) : Commit where
  blockID := Stray.blockID
  height := 1
  round := 0
  signAggr := (if both then [1, 2] else [2]) ++
    ValidatorSet.loneLib.voteSignBytes ⟨"neatio", Stray.blockID, 1, 0, .precommit⟩
  bitArray := some [both, true]

/-- The extra data around it, with and without the order to save the block. -/
def ncExtra (both needToSave : Bool) : NeatconExtra :=
  { NeatconExtra.zero with
    chainID := "neatio"
    height := 1
    needToSave
    validatorsHash := [1, 2]
    seenCommitHash := ValidatorSet.loneLib.commitHash (commit both)
    seenCommit := some (commit both) }

/-- A node of the main chain. -/
def node : Backend where
  lib :=
    { ValidatorSet.loneLib with
      readExtra := fun bytes => some (ncExtra (bytes == [1]) (bytes == [2])) }
  keccak := .toy
  neatChainId := "neatio"
  epochs := [epoch]
  loadOneEpoch := fun _ => none
  getHeader := fun _ _ => none
  heightFromMainChain := fun _ => 0

/-- Block 1, with its extra data. -/
def header (extra : UInt8) : Header :=
  { Stray.genesis with parentHash := Stray.genesis.hash .toy, number := some 1, extra := [extra] }

theorem accepts_header : ∀ extra ∈ [0, 1, 2], node.Accepts [Stray.genesis] (header extra) := by
  decide +kernel

/-- What a main chain takes from outside, and no rewards. -/
def env : RewardEnv := ⟨true, none, fun _ _ _ => 0⟩

/-- Two headers with the same bits and other extra data: the second block is the same for both. -/
theorem finalize_parents_eq_header :
    finalize .sorted node.lib env (fun _ s => s) epoch none 2 [1] (some (header 0)) 0 deposits =
      finalize .sorted node.lib env (fun _ s => s) epoch none 2 [1] (some (header 2)) 0 deposits :=
  finalize_parents_eq (accepts_header 0 (by decide)) (accepts_header 2 (by decide)) .sorted env
    (fun _ s => s) none [1] 0 deposits (.inr ⟨rfl, .refl _⟩)

/-- The counter of the weaker validator after the second block. -/
theorem blockTime_finalize : ∀ extra ∈ [0, 1],
    ((finalize .sorted node.lib env (fun _ s => s) epoch none 2 [1]
      (some (header extra)) 0 deposits).map
      (·.1.reload)).toOption.map (fun s => (s.accounts [1]).blockTime) = some extra.toNat := by
  decide +kernel

/-- Two nodes that have seen different commits for the first block come to different roots. -/
theorem not_forall_finalize_eq :
    ¬ ∀ (sb : Backend) (parents : List Header) (p p' : Header), sb.keccak.CollisionFree →
      sb.Accepts parents p → sb.Accepts parents p' → p.hash sb.keccak = p'.hash sb.keccak →
      ∀ (rt : Runtime) (env : RewardEnv) (launchSideChains : Nat → StateDB → StateDB)
        (epoch : Epoch)
        (nextEpoch : Option (Option EpochValidatorVoteSet)) (coinbase : Address) (totalGasFee : Int)
        (s : StateDB), sb.epochAt (p.numberU64 + 1) = .ok (some epoch) →
        (finalize rt sb.lib env launchSideChains epoch nextEpoch (p.numberU64 + 1) coinbase (some p)
            totalGasFee s).map (·.1.reload) =
          (finalize rt sb.lib env launchSideChains epoch nextEpoch (p.numberU64 + 1) coinbase
            (some p') totalGasFee s).map (·.1.reload) := by
  intro hall
  have hsame := hall node [Stray.genesis] (header 1) (header 0) Keccak.toy_collisionFree
    (accepts_header 1 (by decide)) (accepts_header 0 (by decide)) (by decide +kernel) .sorted env
    (fun _ s => s) epoch none [1] 0 deposits (by decide +kernel)
  have hboth := blockTime_finalize 1 (by decide)
  have hone := blockTime_finalize 0 (by decide)
  rw [show (header 1).numberU64 + 1 = 2 from rfl] at hsame
  rw [hsame, hone] at hboth
  cases hboth

end TwoCommits

end NeatPoS
