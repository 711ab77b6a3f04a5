import NeatPoS.Epoch.Propose

/-!
# What the epochs pay

The reward scheme promises a total reward, which is the reward of a year for each year.  This file
adds up what the epochs pay that are proposed one after the other.

`calculateRewardPerEpochByYear` counts the years from 0 and still pays in the year `TotalYear`, so
it pays for one year too many.  The total reward is kept as long as there are not more epochs than
`TotalYear` years have.
-/

set_option autoImplicit false

namespace NeatPoS

variable {epoch : Epoch} {previousEpoch : Option Epoch}

/-- The number of blocks of an epoch. -/
def Epoch.blocks (epoch : Epoch) : Nat := uint64 (epoch.endBlock - epoch.startBlock + 1)

/-- What an epoch pays. -/
def Epoch.reward (epoch : Epoch) : Int := epoch.rewardPerBlock * epoch.blocks

/-- What is recorded of an epoch later does not concern its number and its blocks. -/
structure Epoch.Recorded (epoch epoch' : Epoch) : Prop where
  number : epoch'.number = epoch.number
  startBlock : epoch'.startBlock = epoch.startBlock
  endBlock : epoch'.endBlock = epoch.endBlock

/-- The epochs that have been proposed one after the other, with the previous and the current
one. -/
inductive Proposals (rs : RewardScheme) : List Epoch → Option Epoch → Epoch → Prop
  | genesis (epoch : Epoch) (hnumber : epoch.number = 0) : Proposals rs [] none epoch
  | next {l : List Epoch} {previousEpoch : Option Epoch} {epoch next : Epoch} (cal : Calendar)
      (lastBlockHeight : Nat) (lastBlockTime : Int) (loadOneEpoch : Nat → Option Epoch)
      (h : Proposals rs l previousEpoch epoch)
      (hduration : 0 ≤ elapsedTime epoch previousEpoch lastBlockTime)
      (hnext : proposeNextEpoch cal rs epoch previousEpoch lastBlockHeight lastBlockTime loadOneEpoch =
        .ok next) {epoch' next' : Epoch} (hepoch' : epoch.Recorded epoch') (hnext' : next.Recorded next') :
      Proposals rs (l ++ [next]) (some epoch') next'

/-- A proposal, in closed form. -/
theorem proposeNextEpoch_ok {cal : Calendar} {rs : RewardScheme}
    {lastBlockHeight : Nat} {lastBlockTime : Int} {loadOneEpoch : Nat → Option Epoch} {next : Epoch}
    (h : proposeNextEpoch cal rs epoch previousEpoch lastBlockHeight lastBlockTime loadOneEpoch = .ok next) :
    ∃ w, next.rewardPerBlock =
        rewardPerEpoch rs epoch / int64 (max emergencyBlocksOfNextEpoch (uint64 w) : Nat) ∧
      next.startBlock = (epoch.endBlock + 1) % 2 ^ 64 ∧
      next.endBlock = (epoch.endBlock + max emergencyBlocksOfNextEpoch (uint64 w)) % 2 ^ 64 := by
  rw [proposeNextEpoch, estimateForNextEpoch_eq] at h
  cases hzero : loadOneEpoch 0 with
  | none =>
    rw [hzero] at h
    cases h
  | some =>
    rw [hzero] at h
    dsimp only at h
    split at h
    · cases h
    · cases h
      exact ⟨_, rfl, rfl, rfl⟩

/-- A proposed epoch pays at most the reward of an epoch. -/
theorem reward_le_rewardPerEpoch {cal : Calendar} {rs : RewardScheme}
    {lastBlockHeight : Nat} {lastBlockTime : Int} {loadOneEpoch : Nat → Option Epoch} {next : Epoch}
    (h : proposeNextEpoch cal rs epoch previousEpoch lastBlockHeight lastBlockTime loadOneEpoch = .ok next)
    (hr : 0 ≤ rewardPerEpoch rs epoch) : next.reward ≤ rewardPerEpoch rs epoch := by
  obtain ⟨w, hreward, hstart, hend⟩ := proposeNextEpoch_ok h
  have hlt : max emergencyBlocksOfNextEpoch (uint64 w) < 2 ^ 64 := max_lt (by decide) (uint64_lt w)
  have hmin : 100 ≤ max emergencyBlocksOfNextEpoch (uint64 w) := le_max_left _ _
  generalize max emergencyBlocksOfNextEpoch (uint64 w) = blocks at hreward hend hlt hmin
  have hblocks : next.blocks = blocks := by
    rw [Epoch.blocks, hstart, hend, uint64]
    omega
  rw [Epoch.reward, hreward, hblocks]
  by_cases hsmall : blocks < 2 ^ 63
  · rw [int64_eq_self (by omega) (by omega)]
    exact Int.ediv_mul_le _ (by omega)
  -- read as a signed number, the blocks are negative
  rw [int64_eq_sub (by omega) (by omega)]
  have hneg : rewardPerEpoch rs epoch / ((blocks : Int) - 2 ^ 64) ≤ 0 :=
    Int.ediv_nonpos_of_nonneg_of_nonpos hr (by omega)
  exact le_trans (Int.mul_nonpos_of_nonpos_of_nonneg hneg (Int.natCast_nonneg _)) hr

section

variable {rs : RewardScheme}

/-- The reward of an epoch is a share of the reward of the year, or nothing. -/
theorem rewardPerEpoch_le (hF : 0 ≤ rs.rewardFirstYear) (hE : rs.epochNumberPerYear.toNat < 2 ^ 63)
    (epoch : Epoch) :
    0 ≤ rewardPerEpoch rs epoch ∧
      rewardPerEpoch rs epoch ≤ rs.rewardFirstYear / rs.epochNumberPerYear.toNat := by
  have hshare : 0 ≤ rs.rewardFirstYear / (rs.epochNumberPerYear.toNat : Int) :=
    Int.ediv_nonneg hF (Int.natCast_nonneg _)
  have hE' : int64 rs.epochNumberPerYear.toNat = rs.epochNumberPerYear.toNat :=
    int64_eq_self (by omega) (by omega)
  rw [rewardPerEpoch, calculateRewardPerEpochByYear, hE']
  split
  · exact ⟨le_refl 0, hshare⟩
  · exact ⟨hshare, le_refl _⟩

/-- What a number of epochs pay together. -/
theorem sum_reward_le (hF : 0 ≤ rs.rewardFirstYear) (hE : rs.epochNumberPerYear.toNat < 2 ^ 63)
    {l : List Epoch} (h : Proposals rs l previousEpoch epoch) :
    (l.map Epoch.reward).sum ≤ l.length * (rs.rewardFirstYear / rs.epochNumberPerYear.toNat) := by
  induction h with
  | genesis => simp
  | @next l previousEpoch epoch next cal lastBlockHeight lastBlockTime loadOneEpoch h hduration hnext epoch'
      next' hepoch' hnext' ih =>
    obtain ⟨hnonneg, hle⟩ := rewardPerEpoch_le hF hE epoch
    have hreward := (reward_le_rewardPerEpoch hnext hnonneg).trans hle
    rw [List.map_append, List.sum_append, List.length_append, List.map_singleton, List.sum_singleton,
      List.length_singleton, Nat.cast_add, Nat.cast_one, add_mul, one_mul]
    exact add_le_add ih hreward

/-- **The total reward is kept**, as long as there are not more epochs than the years of the scheme
have. -/
theorem sum_reward_le_totalReward (hE : 0 < rs.epochNumberPerYear.toNat)
    (htotal : rs.totalReward = rs.totalYear.toNat * rs.rewardFirstYear)
    {l : List Epoch} {previousEpoch : Option Epoch} {epoch : Epoch}
    (h : Proposals rs l previousEpoch epoch)
    (hF : 0 ≤ rs.rewardFirstYear) (hE' : rs.epochNumberPerYear.toNat < 2 ^ 63)
    (hlength : l.length ≤ rs.totalYear.toNat * rs.epochNumberPerYear.toNat) :
    (l.map Epoch.reward).sum ≤ rs.totalReward := by
  have hE'' : (rs.epochNumberPerYear.toNat : Int) ≠ 0 := by omega
  have hshare : 0 ≤ rs.rewardFirstYear / (rs.epochNumberPerYear.toNat : Int) :=
    Int.ediv_nonneg hF (Int.natCast_nonneg _)
  calc (l.map Epoch.reward).sum
      ≤ l.length * (rs.rewardFirstYear / rs.epochNumberPerYear.toNat) := sum_reward_le hF hE' h
    _ ≤ (rs.totalYear.toNat * rs.epochNumberPerYear.toNat : Nat) *
        (rs.rewardFirstYear / rs.epochNumberPerYear.toNat) :=
      mul_le_mul_of_nonneg_right (Int.ofNat_le.2 hlength) hshare
    _ = rs.totalYear.toNat * (rs.rewardFirstYear / rs.epochNumberPerYear.toNat *
        rs.epochNumberPerYear.toNat) := by
      rw [Nat.cast_mul, mul_assoc, mul_comm (rs.epochNumberPerYear.toNat : Int)]
    _ ≤ rs.totalYear.toNat * rs.rewardFirstYear :=
      mul_le_mul_of_nonneg_left (Int.ediv_mul_le _ hE'') (Int.natCast_nonneg _)
    _ = rs.totalReward := htotal.symm

end

/-! ## One year of two epochs -/

/-- One year, with two epochs. -/
def oneYear : RewardScheme := ⟨200 * 10 ^ 18, 200 * 10 ^ 18, 2, 1⟩

/-- An epoch as it is proposed. -/
def proposedEpoch (number startBlock endBlock : Nat) (rewardPerBlock : Int) : Epoch :=
  ⟨number, rewardPerBlock, startBlock, endBlock, zeroTime, zeroTime, 0, 1, ⟨[]⟩⟩

theorem ok_of_toOption {α : Type} {r : Except Panic α} {a : α} (h : r.toOption = some a) : r = .ok a := by
  cases r with
  | error => cases h
  | ok =>
    cases h
    rfl

/-- The first two epochs, if each block takes a second. -/
theorem oneYear_proposals :
    Proposals oneYear
      [proposedEpoch 1 100 31536098 3170979298927, proposedEpoch 2 31536099 47304098 6341958396752]
      (some (epochOf 1 100 31536098 (second 100) (second 31536098)))
      (proposedEpoch 2 31536099 47304098 6341958396752) := by
  have hfirst : Proposals oneYear [proposedEpoch 1 100 31536098 3170979298927]
      (some (epochOf 0 0 99 (second 0) (second 99))) (proposedEpoch 1 100 31536098 3170979298927) :=
    .next .plain 1 (second 1) (fun _ => some (epochOf 0 0 99 (second 0) zeroTime))
      (.genesis (epochOf 0 0 99 (second 0) zeroTime) rfl)
      (by decide) (ok_of_toOption (by decide +kernel)) ⟨rfl, rfl, rfl⟩ ⟨rfl, rfl, rfl⟩
  exact .next .plain 101 (second 100) (fun _ => some (epochOf 0 0 99 (second 0) (second 99))) hfirst
    (by decide) (ok_of_toOption (by decide +kernel)) ⟨rfl, rfl, rfl⟩ ⟨rfl, rfl, rfl⟩

theorem sum_reward_le_totalReward_oneYear :
    ([proposedEpoch 1 100 31536098 3170979298927,
      proposedEpoch 2 31536099 47304098 6341958396752].map Epoch.reward).sum ≤ oneYear.totalReward :=
  sum_reward_le_totalReward (by decide) (by decide) oneYear_proposals (by decide) (by decide) (by decide)

/-- The third epoch still pays, and the total reward is exceeded. -/
theorem sum_reward_gt_totalReward :
    ∃ l previousEpoch epoch, Proposals oneYear l previousEpoch epoch ∧
      oneYear.totalReward < (l.map Epoch.reward).sum := by
  have hthird : Proposals oneYear
      [proposedEpoch 1 100 31536098 3170979298927, proposedEpoch 2 31536099 47304098 6341958396752,
        proposedEpoch 3 47304099 78839998 3170989253517]
      (some (epochOf 2 31536099 47304098 (second 31536099) (second 47304098)))
      (proposedEpoch 3 47304099 78839998 3170989253517) :=
    .next .plain 31536100 (second 31536100) (fun _ => some (epochOf 0 0 99 (second 0) (second 99)))
      oneYear_proposals (by decide) (ok_of_toOption (by decide +kernel)) ⟨rfl, rfl, rfl⟩ ⟨rfl, rfl, rfl⟩
  exact ⟨_, _, _, hthird, by decide⟩

end NeatPoS
