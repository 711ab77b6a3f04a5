import NeatPoS.Types.ValidatorSet
import NeatPoS.Consensus.State

/-!
# The next epoch is proposed

`ProposeNextEpoch` with everything it computes: how long the blocks of the previous epoch have
taken, how much time is left for the epochs of the year, and how many blocks the next epoch should
have so that it takes its share of that time.  The times come from the blocks.  They are `time.Time`
values, and their differences are signed; the quotient is converted to `uint64`, and back to `int64`
when the reward is divided by it.

`estimateForNextEpoch_eq` has the result in closed form.
-/

set_option autoImplicit false

namespace NeatPoS

/-! ## Machine integers and times -/

/-- `uint64(x)` -/
def uint64 (x : Int) : Nat := (x % 2 ^ 64).toNat

/-- `a / b` for two `int64`. -/
def divInt64 (a b : Int) : Except Panic Int :=
  if b = 0 then .error .divideByZero else .ok (int64 (a.tdiv b))

/-- `time.Time.Sub`, in nanoseconds: a difference that does not fit is replaced by the closest one
that does. -/
def subTime (t u : Int) : Int := max (-2 ^ 63) (min (2 ^ 63 - 1) (t - u))

/-- The zero `time.Time`, which is the start of year 1. -/
def zeroTime : Int := -62135596800 * 1000000000

/-- `time.Time.AddDate(years, 0, 0)`, which depends on the calendar and the location. -/
structure Calendar where
  addYears : Int → Int → Int

/-! ## The estimate -/

/-- `RewardScheme` -/
structure RewardScheme where
  totalReward : Int
  rewardFirstYear : Int
  epochNumberPerYear : UInt64
  totalYear : UInt64

/-- An epoch keeps at least so many blocks: `EMERGENCY_BLOCKS_OF_NEXT_EPOCH`. -/
def emergencyBlocksOfNextEpoch : Nat := 100

def calculateRewardPerEpochByYear (rewardFirstYear year totalYear epochNumberPerYear : Int) : Int :=
  if totalYear < year then 0 else rewardFirstYear / epochNumberPerYear

section

variable (cal : Calendar) (rs : RewardScheme) (epoch : Epoch) (previousEpoch : Option Epoch)
  (lastBlockHeight : Nat) (lastBlockTime : Int)

/-- The time that the blocks of `elapsedBlocks` have taken. -/
def elapsedTime : Int :=
  match previousEpoch with
  | some prevEpoch => subTime prevEpoch.endTime prevEpoch.startTime
  | none => subTime lastBlockTime epoch.startTime

/-- The blocks of the previous epoch, or of this one if it is the first. -/
def elapsedBlocks : Int :=
  match previousEpoch with
  | some prevEpoch => int64 (prevEpoch.endBlock - prevEpoch.startBlock)
  | none => int64 (lastBlockHeight - epoch.startBlock)

/-- `epochLeftThisYear` -/
def epochLeftThisYear : Nat :=
  rs.epochNumberPerYear.toNat - epoch.number % rs.epochNumberPerYear.toNat - 1

/-- `Epoch.estimateForNextEpoch`.  `loadOneEpoch` reads the database; only epoch 0 is read. -/
def estimateForNextEpoch (loadOneEpoch : Nat → Option Epoch) : Except Panic (Int × Nat) := do
  let zeroEpoch ← (loadOneEpoch 0).elim (.error .nilDereference) .ok
  let initStartTime := zeroEpoch.startTime
  let epochNumberPerYear := rs.epochNumberPerYear.toNat
  let thisYear : Nat ← if epochNumberPerYear = 0 then .error .divideByZero
    else .ok (epoch.number / epochNumberPerYear)
  let nextYear : Nat := (thisYear + 1) % 2 ^ 64
  let timePerBlockOfEpoch ← divInt64 (elapsedTime epoch previousEpoch lastBlockTime)
    (elapsedBlocks epoch previousEpoch lastBlockHeight)
  let timePerBlockOfEpoch := if timePerBlockOfEpoch = 0 then 1000000000 else timePerBlockOfEpoch
  let nextYearStartTime := cal.addYears initStartTime (int64 nextYear)
  if epochLeftThisYear rs epoch = 0 then
    let nextYearEndTime := cal.addYears nextYearStartTime 1
    let timeLeftNextYear := subTime nextYearEndTime nextYearStartTime
    let epochTimePerEpochLeftNextYear ← divInt64 timeLeftNextYear (int64 epochNumberPerYear)
    let blocks ← divInt64 epochTimePerEpochLeftNextYear timePerBlockOfEpoch
    let blocksOfNextEpoch := max emergencyBlocksOfNextEpoch (uint64 blocks)
    let rewardPerEpochNextYear := calculateRewardPerEpochByYear rs.rewardFirstYear (int64 nextYear)
      (int64 rs.totalYear.toNat) (int64 epochNumberPerYear)
    return (rewardPerEpochNextYear / int64 blocksOfNextEpoch, blocksOfNextEpoch)
  else
    let timeLeftThisYear := subTime nextYearStartTime lastBlockTime
    let blocks ← if 0 < timeLeftThisYear then do
        let epochTimePerEpochLeftThisYear ← divInt64 timeLeftThisYear
          (int64 (epochLeftThisYear rs epoch))
        divInt64 epochTimePerEpochLeftThisYear timePerBlockOfEpoch
      else pure 0
    let blocksOfNextEpoch := max emergencyBlocksOfNextEpoch (uint64 blocks)
    let rewardPerEpochThisYear := calculateRewardPerEpochByYear rs.rewardFirstYear (int64 thisYear)
      (int64 rs.totalYear.toNat) (int64 epochNumberPerYear)
    return (rewardPerEpochThisYear / int64 blocksOfNextEpoch, blocksOfNextEpoch)

/-- `Epoch.ProposeNextEpoch` -/
def proposeNextEpoch (loadOneEpoch : Nat → Option Epoch) : Except Panic Epoch := do
  let (rewardPerBlock, blocks) ← estimateForNextEpoch cal rs epoch previousEpoch lastBlockHeight
    lastBlockTime loadOneEpoch
  return {
    number := (epoch.number + 1) % 2 ^ 64
    rewardPerBlock
    startBlock := (epoch.endBlock + 1) % 2 ^ 64
    endBlock := (epoch.endBlock + blocks) % 2 ^ 64
    startTime := zeroTime
    endTime := zeroTime
    blockGenerated := 0
    status := 1
    validators := epoch.validators }

/-! ## The closed form -/

/-- How long a block takes; a second, if that is not known. -/
def timePerBlockOfEpoch : Int :=
  let time := int64 ((elapsedTime epoch previousEpoch lastBlockTime).tdiv
    (elapsedBlocks epoch previousEpoch lastBlockHeight))
  if time = 0 then 1000000000 else time

/-- The share of the next epoch in the time that is left for its year, or nothing if the time is
over. -/
def timeOfNextEpoch (initStartTime : Int) : Int :=
  let nextYear := epoch.number / rs.epochNumberPerYear.toNat + 1
  let nextYearStartTime := cal.addYears initStartTime (int64 nextYear)
  if epochLeftThisYear rs epoch = 0 then
    int64 ((subTime (cal.addYears nextYearStartTime 1) nextYearStartTime).tdiv
      (int64 rs.epochNumberPerYear.toNat))
  else if 0 < subTime nextYearStartTime lastBlockTime then
    int64 ((subTime nextYearStartTime lastBlockTime).tdiv (int64 (epochLeftThisYear rs epoch)))
  else 0

/-- How many blocks the next epoch should have, as a signed number. -/
def wantedBlocks (initStartTime : Int) : Int :=
  int64 ((timeOfNextEpoch cal rs epoch lastBlockTime initStartTime).tdiv
    (timePerBlockOfEpoch epoch previousEpoch lastBlockHeight lastBlockTime))

/-- The reward of the next epoch. -/
def rewardPerEpoch : Int :=
  calculateRewardPerEpochByYear rs.rewardFirstYear
    (int64 ((epoch.number + 1) / rs.epochNumberPerYear.toNat : Nat)) (int64 rs.totalYear.toNat)
    (int64 rs.epochNumberPerYear.toNat)

end

theorem int64_add_mul (x k : Int) : int64 (x + k * 2 ^ 64) = int64 x := by
  have h : (x + k * 2 ^ 64) % ((2 ^ 64 : Nat) : Int) = x % ((2 ^ 64 : Nat) : Int) := by omega
  rw [int64, int64, Int.bmod, Int.bmod, h]

theorem int64_mod (n : Nat) : int64 ((n % 2 ^ 64 : Nat) : Int) = int64 n := by
  have h : (n : Int) = ((n % 2 ^ 64 : Nat) : Int) + ((n / 2 ^ 64 : Nat) : Int) * 2 ^ 64 := by omega
  rw [h, int64_add_mul]

theorem int64_ne_zero {n : Nat} (h : n ≠ 0) (h' : n < 2 ^ 64) : int64 n ≠ 0 := by
  by_cases hn : n < 2 ^ 63
  · rw [int64_eq_self (by omega) (by omega)]
    omega
  · rw [int64_eq_sub (by omega) (by omega)]
    omega

theorem divInt64_of_ne (a : Int) {b : Int} (h : b ≠ 0) : divInt64 a b = .ok (int64 (a.tdiv b)) :=
  if_neg h

/-- The year of the next epoch. -/
theorem next_div {n e : Nat} (he : e ≠ 0) :
    (n + 1) / e = if e - n % e - 1 = 0 then n / e + 1 else n / e := by
  have hpos := Nat.pos_of_ne_zero he
  have hlt : n % e < e := Nat.mod_lt n hpos
  have hn := Nat.div_add_mod n e
  split
  · have hsucc : n + 1 = e * (n / e + 1) := by
      rw [Nat.mul_add, Nat.mul_one]
      omega
    rw [hsucc, Nat.mul_div_cancel_left _ hpos]
  · have hsucc : n + 1 = n % e + 1 + e * (n / e) := by omega
    rw [hsucc, Nat.add_mul_div_left _ _ hpos, Nat.div_eq_of_lt (by omega), Nat.zero_add]

section

variable (cal : Calendar) (rs : RewardScheme) (epoch : Epoch) (previousEpoch : Option Epoch)
  (lastBlockHeight : Nat) (lastBlockTime : Int)

theorem timePerBlockOfEpoch_ne_zero :
    timePerBlockOfEpoch epoch previousEpoch lastBlockHeight lastBlockTime ≠ 0 := by
  rw [timePerBlockOfEpoch]
  split
  · decide
  · assumption

/-- **The estimate in closed form.** -/
theorem estimateForNextEpoch_eq (loadOneEpoch : Nat → Option Epoch) :
    estimateForNextEpoch cal rs epoch previousEpoch lastBlockHeight lastBlockTime loadOneEpoch =
      match loadOneEpoch 0 with
      | none => .error .nilDereference
      | some zeroEpoch =>
        if rs.epochNumberPerYear.toNat = 0 ∨ elapsedBlocks epoch previousEpoch lastBlockHeight = 0 then
          .error .divideByZero
        else
          let blocks := max emergencyBlocksOfNextEpoch (uint64 (wantedBlocks cal rs epoch previousEpoch
            lastBlockHeight lastBlockTime zeroEpoch.startTime))
          .ok (rewardPerEpoch rs epoch / int64 blocks, blocks) := by
  rw [estimateForNextEpoch]
  cases loadOneEpoch 0 with
  | none => rfl
  | some =>
    by_cases hE : rs.epochNumberPerYear.toNat = 0
    · simp only [hE, true_or, if_true]
      rfl
    have hE' := int64_ne_zero hE rs.epochNumberPerYear.toNat_lt
    by_cases hblocks : elapsedBlocks epoch previousEpoch lastBlockHeight = 0
    · simp only [hE, hblocks, divInt64, or_true, if_true, if_false]
      rfl
    have hleft : epochLeftThisYear rs epoch < 2 ^ 64 :=
      lt_of_le_of_lt (by rw [epochLeftThisYear]; omega) rs.epochNumberPerYear.toNat_lt
    have htime := timePerBlockOfEpoch_ne_zero epoch previousEpoch lastBlockHeight lastBlockTime
    have hyear := next_div (n := epoch.number) hE
    rw [← epochLeftThisYear] at hyear
    dsimp only [Option.elim]
    rw [if_neg (not_or.2 ⟨hE, hblocks⟩), wantedBlocks, timeOfNextEpoch, rewardPerEpoch, hyear]
    have hfold : (if int64 ((elapsedTime epoch previousEpoch lastBlockTime).tdiv
        (elapsedBlocks epoch previousEpoch lastBlockHeight)) = 0 then 1000000000
        else int64 ((elapsedTime epoch previousEpoch lastBlockTime).tdiv
          (elapsedBlocks epoch previousEpoch lastBlockHeight))) =
        timePerBlockOfEpoch epoch previousEpoch lastBlockHeight lastBlockTime := rfl
    have hok {α β : Type} (a : α) (f : α → Except Panic β) : (Except.ok a >>= f) = f a := pure_bind a f
    simp only [hok, if_neg hE, divInt64_of_ne _ hblocks, int64_mod, hfold]
    by_cases hlast : epochLeftThisYear rs epoch = 0
    · simp only [if_pos hlast, divInt64_of_ne _ hE', divInt64_of_ne _ htime, hok]
      rfl
    have hleft' := int64_ne_zero hlast hleft
    simp only [if_neg hlast, divInt64_of_ne _ hleft', divInt64_of_ne _ htime, hok]
    split
    · rfl
    · simp [int64]
      rfl

/-! ## When the next epoch makes sense -/

theorem int64_bounds (x : Int) : -2 ^ 63 ≤ int64 x ∧ int64 x < 2 ^ 63 := by
  have hle := Int.le_bmod (x := x) (m := 2 ^ 64) (by norm_num)
  have hlt := Int.bmod_lt (x := x) (m := 2 ^ 64) (by norm_num)
  rw [int64]
  omega

theorem uint64_lt (x : Int) : uint64 x < 2 ^ 64 := by
  rw [uint64]
  omega

theorem uint64_of_nonneg {x : Int} (h : 0 ≤ x) (h' : x < 2 ^ 63) : uint64 x = x.toNat := by
  rw [uint64]
  omega

theorem uint64_of_neg {x : Int} (h : x < 0) (h' : -2 ^ 63 ≤ x) : (uint64 x : Int) = x + 2 ^ 64 := by
  rw [uint64]
  omega

/-- A quotient by a negative number is not negative, as long as nothing has to be taken away. -/
theorem ediv_nonneg_iff_of_neg {r w : Int} (hw : w < 0) : 0 ≤ r / w ↔ r < -w := by
  have hdiv := Int.mul_ediv_add_emod r w
  have hmod := Int.emod_nonneg r (Int.ne_of_lt hw)
  have hmod' := Int.emod_lt_of_neg r hw
  constructor
  · intro h
    have hprod : w * (r / w) ≤ 0 := Int.mul_nonpos_of_nonpos_of_nonneg hw.le h
    omega
  · intro h
    by_contra hneg
    have hprod : w * (r / w) ≥ -w := by nlinarith
    omega

/-- The blocks of the next epoch and its reward, for a number of blocks that is wanted. -/
theorem blocks_sound_iff {w : Int} (hw : -2 ^ 63 ≤ w) (hw' : w < 2 ^ 63) (endBlock : Nat) (r : Int) :
    (endBlock + max emergencyBlocksOfNextEpoch (uint64 w) < 2 ^ 64 ∧
      0 ≤ r / int64 (max emergencyBlocksOfNextEpoch (uint64 w) : Nat)) ↔
      (0 ≤ w → (endBlock : Int) + max 100 w < 2 ^ 64 ∧ 0 ≤ r) ∧
        (w < 0 → (endBlock : Int) < -w ∧ r < -w) := by
  rcases Int.lt_or_le w 0 with hneg | hnonneg
  · have hblocks := uint64_of_neg hneg hw
    have hmax : max emergencyBlocksOfNextEpoch (uint64 w) = uint64 w := by
      rw [emergencyBlocksOfNextEpoch]
      omega
    rw [hmax, hblocks, int64_eq_sub (by omega) (by omega), Int.add_sub_cancel, ediv_nonneg_iff_of_neg hneg]
    omega
  · have hblocks := uint64_of_nonneg hnonneg hw'
    have hmax : ((max emergencyBlocksOfNextEpoch (uint64 w) : Nat) : Int) = max 100 w := by
      rw [hblocks, emergencyBlocksOfNextEpoch]
      omega
    rw [hmax, int64_eq_self (by omega) (by omega), Int.ediv_nonneg_iff_of_pos (by omega)]
    omega

/-- **When the next epoch makes sense.**  The recorded times must be such that the number of blocks
which is wanted is not negative; if it is, it is read as a number above `2 ^ 63`, and the reward is
divided by the negative number. -/
theorem proposeNextEpoch_sound_iff (loadOneEpoch : Nat → Option Epoch) :
    (∃ next, proposeNextEpoch cal rs epoch previousEpoch lastBlockHeight lastBlockTime loadOneEpoch = .ok next ∧
      next.number = epoch.number + 1 ∧ next.startBlock = epoch.endBlock + 1 ∧
      next.startBlock + 99 ≤ next.endBlock ∧ 0 ≤ next.rewardPerBlock) ↔
      ∃ zeroEpoch, loadOneEpoch 0 = some zeroEpoch ∧ rs.epochNumberPerYear.toNat ≠ 0 ∧
        elapsedBlocks epoch previousEpoch lastBlockHeight ≠ 0 ∧ epoch.number + 1 < 2 ^ 64 ∧
        (0 ≤ wantedBlocks cal rs epoch previousEpoch lastBlockHeight lastBlockTime zeroEpoch.startTime →
          epoch.endBlock + max 100 (wantedBlocks cal rs epoch previousEpoch lastBlockHeight lastBlockTime
            zeroEpoch.startTime) < 2 ^ 64 ∧ 0 ≤ rewardPerEpoch rs epoch) ∧
        (wantedBlocks cal rs epoch previousEpoch lastBlockHeight lastBlockTime zeroEpoch.startTime < 0 →
          epoch.endBlock < -wantedBlocks cal rs epoch previousEpoch lastBlockHeight lastBlockTime
            zeroEpoch.startTime ∧
          rewardPerEpoch rs epoch < -wantedBlocks cal rs epoch previousEpoch lastBlockHeight lastBlockTime
            zeroEpoch.startTime) := by
  rw [proposeNextEpoch, estimateForNextEpoch_eq]
  cases loadOneEpoch 0 with
  | none =>
    refine iff_of_false ?_ ?_
    · rintro ⟨next, h, -⟩
      cases h
    · rintro ⟨zeroEpoch, h, -⟩
      cases h
  | some zeroEpoch =>
    dsimp only
    generalize hw : wantedBlocks cal rs epoch previousEpoch lastBlockHeight lastBlockTime zeroEpoch.startTime = w
    have hbounds : -2 ^ 63 ≤ w ∧ w < 2 ^ 63 := by
      rw [← hw, wantedBlocks]
      exact int64_bounds _
    have hsound := blocks_sound_iff hbounds.1 hbounds.2 epoch.endBlock (rewardPerEpoch rs epoch)
    by_cases hdiv : rs.epochNumberPerYear.toNat = 0 ∨ elapsedBlocks epoch previousEpoch lastBlockHeight = 0
    · rw [if_pos hdiv]
      refine iff_of_false ?_ ?_
      · rintro ⟨next, h, -⟩
        cases h
      · rintro ⟨_, -, hE, hblocks, -⟩
        exact hdiv.elim hE hblocks
    · rw [if_neg hdiv]
      rw [not_or] at hdiv
      have hmin : 100 ≤ max emergencyBlocksOfNextEpoch (uint64 w) := le_max_left _ _
      have hmax : max emergencyBlocksOfNextEpoch (uint64 w) < 2 ^ 64 :=
        max_lt (by decide) (uint64_lt w)
      constructor
      · rintro ⟨next, hnext, hnumber, hstart, hend, hreward⟩
        cases hnext
        dsimp only at hnumber hstart hend hreward
        refine ⟨zeroEpoch, rfl, hdiv.1, hdiv.2, by omega, ?_⟩
        rw [hw]
        exact hsound.1 ⟨by omega, hreward⟩
      · rintro ⟨_, hzero, hE, hblocks, hnumber, hrest⟩
        cases hzero
        rw [hw] at hrest
        obtain ⟨hlt, hreward⟩ := hsound.2 hrest
        refine ⟨_, rfl, ?_, ?_, ?_, hreward⟩
        · exact Nat.mod_eq_of_lt hnumber
        · show (epoch.endBlock + 1) % 2 ^ 64 = epoch.endBlock + 1
          exact Nat.mod_eq_of_lt (by omega)
        · show (epoch.endBlock + 1) % 2 ^ 64 + 99 ≤ (epoch.endBlock + _) % 2 ^ 64
          rw [Nat.mod_eq_of_lt hlt, Nat.mod_eq_of_lt (by omega)]
          omega

end

/-- A year has 365 days. -/
def Calendar.plain : Calendar := ⟨fun t years => t + years * (365 * 24 * 60 * 60 * 1000000000)⟩

/-- Ten years with 4380 epochs each. -/
def tenYears : RewardScheme := ⟨200000000 * 10 ^ 18, 20000000 * 10 ^ 18, 4380, 10⟩

/-- The epoch with a number, from a block to another one, that begins and ends at some time. -/
def epochOf (number startBlock endBlock : Nat) (startTime endTime : Int) : Epoch :=
  ⟨number, 0, startBlock, endBlock, startTime, endTime, 0, 0, ⟨[]⟩⟩

/-- So many seconds after the beginning of the year 2021, UTC. -/
def second (n : Int) : Int := (1609459200 + n) * 10 ^ 9

/-- Five thousand blocks have taken five thousand seconds. -/
theorem proposeNextEpoch_sound_tenYears :
    ∃ next, proposeNextEpoch .plain tenYears (epochOf 1 5001 10000 (second 5000) zeroTime)
        (some (epochOf 0 0 5000 (second 0) (second 5000))) 5001 (second 5001)
        (fun _ => some (epochOf 0 0 5000 (second 0) (second 5000))) = .ok next ∧
      next.number = 2 ∧ next.startBlock = 10001 ∧ next.startBlock + 99 ≤ next.endBlock ∧
      0 ≤ next.rewardPerBlock := by
  refine (proposeNextEpoch_sound_iff .plain tenYears (epochOf 1 5001 10000 (second 5000) zeroTime)
        (some (epochOf 0 0 5000 (second 0) (second 5000))) 5001 (second 5001)
        (fun _ => some (epochOf 0 0 5000 (second 0) (second 5000)))).2 ⟨_, rfl, ?_⟩
  decide +kernel

/-- The recorded end of the previous epoch is before its start: the next epoch ends before it
starts, and takes a reward away. -/
theorem proposeNextEpoch_not_sound :
    ∃ next ∈ (proposeNextEpoch .plain tenYears (epochOf 1 5001 10000 (second (-5000)) zeroTime)
        (some (epochOf 0 0 5000 (second 0) (second (-5000)))) 5001 (second 5001)
        (fun _ => some (epochOf 0 0 5000 (second 0) (second (-5000))))).toOption,
      next.startBlock = 10001 ∧ next.endBlock = 2798 ∧ next.rewardPerBlock < 0 := by
  decide +kernel

end NeatPoS
