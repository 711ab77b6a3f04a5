import NeatPoS.Consensus.State

/-!
# The epoch of a block

`Epoch.GetEpochByBlockNumber` (`epoch/epoch.go`) begins with an epoch that it has at hand and goes
back from there.

The loop counts down in `uint64` and never sees a negative number.  It ends at the missing epoch
before epoch 0 (`getEpochLoop_ends`).  Were all the epochs there, each would be a block long, and one
of them would be found (`Stored.covers_of_all`).
-/

set_option autoImplicit false

namespace NeatPoS

/-- How a call fails to return. -/
inductive Halt where
  | panic (p : Panic)
  /-- A loop is never left. -/
  | forever
deriving DecidableEq, Repr

/-- The block number lies in the epoch. -/
def Epoch.covers (e : Epoch) (blockNumber : Nat) : Bool :=
  decide (e.startBlock ≤ blockNumber) && decide (blockNumber ≤ e.endBlock)

namespace Epoch

/-- The loop of `GetEpochByBlockNumber`.  Its counter is a `uint64`, for which `number >= 0` always
holds: only a missing epoch stops it, and after `2 ^ 64` epochs it starts over. -/
def getEpochLoop (loadOneEpoch : Nat → Option Epoch) (blockNumber : Nat) :
    (fuel : Nat) → (number : Nat) → Except Halt (Option Epoch)
  | 0, _ => .error .forever
  | fuel + 1, number =>
    match loadOneEpoch number with
    | none => .ok none
    | some ep =>
      if ep.covers blockNumber then .ok (some ep)
      else getEpochLoop loadOneEpoch blockNumber fuel (prevU64 number)

/-- `Epoch.GetEpochByBlockNumber`.  An epoch always has its validators in the model, so that the
checks for nil validators are left out below. -/
def getEpochByBlockNumber (loadOneEpoch : Nat → Option Epoch) (epoch : Epoch) (blockNumber : Nat) :
    Except Halt (Option Epoch) :=
  if epoch.covers blockNumber then .ok (some epoch)
  else getEpochLoop loadOneEpoch blockNumber (2 ^ 64) (prevU64 epoch.number)

theorem covers_iff {e : Epoch} {blockNumber : Nat} :
    e.covers blockNumber = true ↔ e.startBlock ≤ blockNumber ∧ blockNumber ≤ e.endBlock := by
  rw [covers, Bool.and_eq_true, decide_eq_true_eq, decide_eq_true_eq]

/-- The epochs from 0 to `n` are stored, each under its number, and no others.  Each begins after the
last block of the one before. -/
structure Stored (load : Nat → Option Epoch) (n : Nat) : Prop where
  lt : n < 2 ^ 64
  isSome : ∀ i ≤ n, (load i).isSome
  eq_none : ∀ i, n < i → load i = none
  number : ∀ i e, load i = some e → e.number = i
  range : ∀ i e, load i = some e → e.startBlock ≤ e.endBlock ∧ e.endBlock < 2 ^ 64
  next : ∀ i e e', load i = some e → load (i + 1) = some e' → e'.startBlock = e.endBlock + 1

namespace Stored

variable {load : Nat → Option Epoch} {n i j b : Nat} {e e' : Epoch}

section

variable (h : Stored load n)
include h

theorem le (he : load i = some e) : i ≤ n := by
  by_contra hlt
  rw [h.eq_none i (Nat.lt_of_not_le hlt)] at he
  cases he

theorem exists_eq (hi : i ≤ n) : ∃ e, load i = some e :=
  Option.isSome_iff_exists.1 (h.isSome i hi)

/-- A later epoch lies after an earlier one, by at least as many blocks as there are epochs between
them. -/
theorem add_le (he : load i = some e) (he' : load (i + j + 1) = some e') :
    e.endBlock + j + 1 ≤ e'.startBlock := by
  induction j generalizing e' with
  | zero => exact Nat.le_of_eq (h.next i e e' he he').symm
  | succ _ ih =>
    obtain ⟨e₁, he₁⟩ := h.exists_eq (Nat.le_of_succ_le (h.le he'))
    have hle := ih he₁
    have hrange := (h.range _ e₁ he₁).1
    have hnext := h.next _ e₁ e' he₁ he'
    omega

theorem lt_of_lt (hij : i < j) (he : load i = some e)
    (he' : load j = some e') : e.endBlock < e'.startBlock := by
  obtain ⟨_, rfl⟩ := Nat.exists_eq_add_of_lt hij
  have hle := h.add_le he he'
  omega

/-- A block is in one epoch at most. -/
theorem eq_of_covers (he : load i = some e) (he' : load j = some e')
    (hc : e.covers b = true) (hc' : e'.covers b = true) : i = j := by
  rw [covers_iff] at hc hc'
  by_contra hne
  rcases Nat.lt_or_gt_of_ne hne with hlt | hlt
  · have := h.lt_of_lt hlt he he'
    omega
  · have := h.lt_of_lt hlt he' he
    omega

/-- If there are as many epochs as numbers, each of them is one block long. -/
theorem covers_of_all (hn : n + 1 = 2 ^ 64) (he : load i = some e) : e.covers i = true := by
  have hrange := h.range i e he
  have hle := h.le he
  have hstart : i ≤ e.startBlock := by
    rcases Nat.eq_zero_or_pos i with rfl | hpos
    · exact Nat.zero_le _
    · obtain ⟨_, he₀⟩ := h.exists_eq (Nat.zero_le n)
      obtain ⟨j, rfl⟩ := Nat.exists_eq_add_of_lt hpos
      have := h.add_le he₀ he
      omega
  have hend : e.endBlock ≤ i := by
    rcases Nat.eq_or_lt_of_le hle with rfl | hlt
    · omega
    obtain ⟨e₁, he₁⟩ := h.exists_eq (Nat.le_refl n)
    obtain ⟨j, rfl⟩ := Nat.exists_eq_add_of_lt hlt
    have := h.add_le he he₁
    have := h.range _ e₁ he₁
    omega
  rw [covers_iff]
  omega

end

end Stored

/-! ## The loop over `uint64` -/

theorem prevU64_of_pos {m : Nat} (hpos : 0 < m) (hm : m < 2 ^ 64) : prevU64 m = m - 1 := by
  rw [prevU64]
  omega

theorem iterate_prevU64 {j m : Nat} (hj : j ≤ m) (hm : m < 2 ^ 64) : prevU64^[j] m = m - j := by
  induction j with
  | zero => rfl
  | succ _ ih =>
    rw [Function.iterate_succ_apply', ih (Nat.le_of_succ_le hj),
      prevU64_of_pos (by omega) (by omega), Nat.sub_sub]

/-- Counting down comes to every number. -/
theorem exists_iterate_prevU64 {i m : Nat} (hi : i < 2 ^ 64) (hm : m < 2 ^ 64) :
    ∃ j < 2 ^ 64, prevU64^[j] m = i := by
  rcases Nat.lt_or_ge m i with hlt | hge
  · refine ⟨2 ^ 64 - 1 - i + (1 + m), by omega, ?_⟩
    have hwrap : prevU64^[1 + m] m = 2 ^ 64 - 1 := by
      rw [Function.iterate_add_apply, iterate_prevU64 (Nat.le_refl m) hm, Nat.sub_self,
        Function.iterate_one, prevU64, Nat.zero_add, Nat.mod_eq_of_lt (by decide)]
    rw [Function.iterate_add_apply, hwrap, iterate_prevU64 (by omega) (by omega)]
    omega
  · refine ⟨m - i, by omega, ?_⟩
    rw [iterate_prevU64 (by omega) hm]
    omega

variable {load : Nat → Option Epoch} {n m b fuel : Nat} {e epoch : Epoch}

theorem getEpochLoop_sound (h : getEpochLoop load b fuel m = .ok (some e)) : e.covers b = true := by
  induction fuel generalizing m with
  | zero => exact absurd h (by simp [getEpochLoop])
  | succ _ ih =>
    rw [getEpochLoop] at h
    cases hload : load m with
    | none =>
      rw [hload] at h
      cases h
    | some ep =>
      rw [hload] at h
      dsimp only at h
      by_cases hc : ep.covers b = true
      · rw [if_pos hc] at h
        obtain rfl := Option.some.inj (Except.ok.inj h)
        exact hc
      · rw [if_neg hc] at h
        exact ih h

/-- What a loop that does not end has seen. -/
theorem getEpochLoop_forever {halt : Halt} (h : getEpochLoop load b fuel m = .error halt) :
    ∀ j < fuel, ∃ e, load (prevU64^[j] m) = some e ∧ e.covers b = false := by
  induction fuel generalizing m with
  | zero => exact fun j hj => absurd hj (Nat.not_lt_zero j)
  | succ _ ih =>
    rw [getEpochLoop] at h
    cases hload : load m with
    | none =>
      rw [hload] at h
      cases h
    | some ep =>
      rw [hload] at h
      dsimp only at h
      by_cases hc : ep.covers b = true
      · rw [if_pos hc] at h
        cases h
      rw [if_neg hc] at h
      intro j hj
      cases j with
      | zero =>
        rw [Function.iterate_zero_apply]
        exact ⟨ep, hload, Bool.eq_false_iff.2 hc⟩
      | succ j =>
        rw [Function.iterate_succ_apply]
        exact ih h j (Nat.lt_of_succ_lt_succ hj)

/-- **The loop ends.** -/
theorem getEpochLoop_ends (h : Stored load n) (hfuel : 2 ^ 64 ≤ fuel) (hm : m < 2 ^ 64)
    (hb : b < 2 ^ 64) : ∃ r, getEpochLoop load b fuel m = .ok r := by
  cases hloop : getEpochLoop load b fuel m with
  | ok r => exact ⟨r, rfl⟩
  | error =>
    have hseen : ∀ i < 2 ^ 64, ∃ e, load i = some e ∧ e.covers b = false := by
      intro i hi
      obtain ⟨j, hj, rfl⟩ := exists_iterate_prevU64 hi hm
      exact getEpochLoop_forever hloop j (Nat.lt_of_lt_of_le hj hfuel)
    -- then every number has its epoch, and the block the one with its own number
    have hn : n + 1 = 2 ^ 64 := by
      obtain ⟨e, he, -⟩ := hseen (2 ^ 64 - 1) (by decide)
      have hle := h.le he
      have hlt := h.lt
      omega
    obtain ⟨e, he, hc⟩ := hseen b hb
    rw [h.covers_of_all hn he] at hc
    cases hc

/-- The loop finds an epoch that lies before it. -/
theorem getEpochLoop_finds (h : Stored load n) {i : Nat} (he : load i = some e)
    (hc : e.covers b = true) (him : i ≤ m) (hmn : m ≤ n) (hfuel : m - i < fuel) :
    getEpochLoop load b fuel m = .ok (some e) := by
  induction fuel generalizing m with
  | zero => exact absurd hfuel (Nat.not_lt_zero _)
  | succ _ ih =>
    obtain ⟨ep, hep⟩ := h.exists_eq hmn
    rw [getEpochLoop, hep]
    dsimp only
    by_cases hcov : ep.covers b = true
    · obtain rfl := h.eq_of_covers he hep hc hcov
      rw [if_pos hcov]
      rw [he] at hep
      rw [hep]
    · have hne : i ≠ m := by
        rintro rfl
        rw [he] at hep
        cases hep
        exact hcov hc
      have hlt := h.lt
      rw [if_neg hcov, prevU64_of_pos (by omega) (by omega)]
      exact ih (by omega) (by omega) (by omega)

end Epoch

end NeatPoS
