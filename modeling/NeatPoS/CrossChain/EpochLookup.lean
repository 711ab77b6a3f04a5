import NeatPoS.CrossChain.ProofData

/-!
# The epoch of a block of a side chain

`ChainInfo.GetEpochByBlockNumber` (`core/chains_info.go`), beside `Epoch.GetEpochByBlockNumber`.  It
has a shortcut for a block after the epoch it has: it takes the next epoch as it is.  The block may
be later than that, and then the epoch that is returned is not that of the block.

`lookupsRight_iff` says that this is all that can go wrong.
-/

set_option autoImplicit false

namespace NeatPoS

/-! ## The two lookups -/

/-- What a lookup from an epoch on should return: an epoch with the block, and this if the block is
not after the epoch. -/
def Epoch.RightFor (load : Nat → Option Epoch) (epoch : Epoch) (blockNumber : Nat)
    (r : Option Epoch) : Prop :=
  (∀ ep, r = some ep → ep.covers blockNumber = true) ∧
    (blockNumber ≤ epoch.endBlock →
      ∀ i ep, load i = some ep → ep.covers blockNumber = true → r = some ep)

namespace ChainInfoDB

open Epoch

variable {db : ChainInfoDB} {chainId : String} {n m b : Nat} {e epoch : Epoch} {ci : ChainInfo}

/-- Both lookups end, and return what they should. -/
def LookupsRight (db : ChainInfoDB) (ci : ChainInfo) (epoch : Epoch) (blockNumber : Nat) : Prop :=
  (∃ r, epoch.getEpochByBlockNumber (db.loadEpoch · ci.chainId) blockNumber = .ok r ∧
      epoch.RightFor (db.loadEpoch · ci.chainId) blockNumber r) ∧
    epoch.RightFor (db.loadEpoch · ci.chainId) blockNumber
      (db.getEpochByBlockNumber ci blockNumber)

theorem historyEpoch_sound (h : db.historyEpoch chainId b m = some e) : e.covers b = true := by
  induction m with
  | zero => exact absurd h (by simp [historyEpoch])
  | succ m ih =>
    rw [historyEpoch] at h
    cases hload : db.loadEpoch m chainId with
    | none =>
      rw [hload] at h
      cases h
    | some ep =>
      rw [hload] at h
      dsimp only at h
      by_cases hc : ep.covers b = true
      · rw [if_pos hc] at h
        cases h
        exact hc
      · rw [if_neg hc] at h
        exact ih h

section

variable (h : Stored (db.loadEpoch · chainId) n)
include h

theorem historyEpoch_finds {i : Nat}
    (he : db.loadEpoch i chainId = some e) (hc : e.covers b = true) (him : i < m)
    (hmn : m ≤ n + 1) : db.historyEpoch chainId b m = some e := by
  induction m with
  | zero => exact absurd him (Nat.not_lt_zero _)
  | succ m ih =>
    obtain ⟨ep, hep⟩ := h.exists_eq (Nat.le_of_succ_le_succ hmn)
    rw [historyEpoch, hep]
    dsimp only
    by_cases hcov : ep.covers b = true
    · obtain rfl := h.eq_of_covers he hep hc hcov
      rw [if_pos hcov]
      rw [he] at hep
      rw [hep]
    · have hne : i ≠ m := by
        rintro rfl
        rw [he] at hep
        cases hep
        exact hcov hc
      rw [if_neg hcov]
      exact ih (by omega) (by omega)

/-- A block that is not in the epoch and not after it can only be in an earlier one. -/
theorem earlier
    (hepoch : db.loadEpoch epoch.number chainId = some epoch) (hout : epoch.covers b ≠ true)
    (hle : b ≤ epoch.endBlock) {i : Nat} (he : db.loadEpoch i chainId = some e)
    (hc : e.covers b = true) : i < epoch.number := by
  rw [covers_iff] at hc
  by_contra hge
  rcases Nat.eq_or_lt_of_le (Nat.le_of_not_lt hge) with heq | hlt
  · rw [← heq, hepoch] at he
    cases he
    exact hout (covers_iff.2 hc)
  · have := h.lt_of_lt hlt hepoch he
    omega

/-- **The first lookup is right.** -/
theorem rightFor_epoch
    (hepoch : db.loadEpoch epoch.number chainId = some epoch) (hb : b < 2 ^ 64) :
    ∃ r, epoch.getEpochByBlockNumber (db.loadEpoch · chainId) b = .ok r ∧
      epoch.RightFor (db.loadEpoch · chainId) b r := by
  have hlt : epoch.number < 2 ^ 64 := Nat.lt_of_le_of_lt (h.le hepoch) h.lt
  rw [Epoch.getEpochByBlockNumber]
  by_cases hcov : epoch.covers b = true
  · rw [if_pos hcov]
    refine ⟨some epoch, rfl, ?_, fun _ i ep hep hc => ?_⟩
    · rintro _ ⟨⟩
      exact hcov
    · obtain rfl := h.eq_of_covers hepoch hep hcov hc
      exact hepoch.symm.trans hep
  · rw [if_neg hcov]
    obtain ⟨r, hr⟩ := getEpochLoop_ends h (Nat.le_refl _)
      (show prevU64 epoch.number < 2 ^ 64 from Nat.mod_lt _ (by decide)) hb
    refine ⟨r, hr, ?_, fun hle i ep hep hc => ?_⟩
    · rintro ep rfl
      exact getEpochLoop_sound hr
    have hearlier := earlier h hepoch hcov hle hep hc
    have hprev := prevU64_of_pos (Nat.zero_lt_of_lt hearlier) hlt
    have hfinds : getEpochLoop (db.loadEpoch · chainId) b (2 ^ 64) (epoch.number - 1) =
        .ok (some ep) :=
      getEpochLoop_finds h hep hc (by omega) (Nat.le_trans (Nat.sub_le _ _) (h.le hepoch))
        (by omega)
    rw [← hprev, hr] at hfinds
    exact Except.ok.inj hfinds

end

/-- **The second lookup.**  What it returns for a block after its epoch is the next epoch. -/
theorem rightFor_chainInfo_iff (h : Stored (db.loadEpoch · ci.chainId) n)
    (hepoch : db.loadEpoch epoch.number ci.chainId = some epoch) (hci : ci.epoch = some epoch)
    (hb : b < 2 ^ 64) :
    epoch.RightFor (db.loadEpoch · ci.chainId) b (db.getEpochByBlockNumber ci b) ↔
      ∀ next, db.loadEpoch (epoch.number + 1) ci.chainId = some next → b ≤ next.endBlock := by
  have hle : epoch.number ≤ n := h.le hepoch
  have hlt := h.lt
  rw [getEpochByBlockNumber, hci]
  dsimp only
  by_cases hcov : epoch.covers b = true
  · rw [if_pos hcov]
    refine iff_of_true ⟨?_, fun _ i ep hep hc => ?_⟩ fun next hnext => ?_
    · rintro _ ⟨⟩
      exact hcov
    · obtain rfl := h.eq_of_covers hepoch hep hcov hc
      exact hepoch.symm.trans hep
    · have := h.next _ _ _ hepoch hnext
      have := (h.range _ _ hnext).1
      rw [covers_iff] at hcov
      omega
  rw [if_neg hcov]
  by_cases hafter : b > epoch.endBlock
  · rw [if_pos hafter]
    -- only with all the numbers taken would the next number be 0, and then no block comes later
    have hsmall : epoch.number + 1 < 2 ^ 64 := by
      by_contra hge
      have hcovers := h.covers_of_all (by omega) hepoch
      rw [covers_iff] at hcovers
      omega
    rw [Nat.mod_eq_of_lt hsmall]
    constructor
    · rintro ⟨hright, -⟩ next hnext
      exact (covers_iff.1 (hright next hnext)).2
    intro hnext
    refine ⟨fun ep hep => ?_, fun hnot => absurd hnot (by omega)⟩
    have hstart := h.next _ _ _ hepoch hep
    have hend := hnext ep hep
    rw [covers_iff]
    omega
  · rw [if_neg hafter]
    refine iff_of_true ⟨fun ep hep => historyEpoch_sound hep, fun hle' i ep hep hc => ?_⟩
      fun next hnext => ?_
    · exact historyEpoch_finds h hep hc (earlier h hepoch hcov hle' hep hc) (by omega)
    · have := h.next _ _ _ hepoch hnext
      have := (h.range _ _ hnext).1
      omega

/-- **When the two lookups are right.**  The block is not after the epoch that follows the one at
hand. -/
theorem lookupsRight_iff (db : ChainInfoDB) (ci : ChainInfo) (epoch : Epoch) (n blockNumber : Nat)
    (hstored : Stored (db.loadEpoch · ci.chainId) n)
    (hepoch : db.loadEpoch epoch.number ci.chainId = some epoch) (hci : ci.epoch = some epoch)
    (hblock : blockNumber < 2 ^ 64) :
    db.LookupsRight ci epoch blockNumber ↔
      ∀ next, db.loadEpoch (epoch.number + 1) ci.chainId = some next →
        blockNumber ≤ next.endBlock := by
  rw [LookupsRight, rightFor_chainInfo_iff hstored hepoch hci hblock]
  exact and_iff_right (rightFor_epoch hstored hepoch hblock)

end ChainInfoDB

namespace ThreeEpochs

/-- An epoch of ten blocks. -/
def tenBlocks (number : Nat) : Epoch :=
  ⟨number, 0, 10 * number, 10 * number + 9, 0, 0, 0, 0, ⟨[⟨[1], [1], 10, 0⟩]⟩⟩

/-- Three epochs of a side chain. -/
def records : ChainInfoDB where
  epochNumber := fun _ => some 0
  loadEpoch := fun number _ => if number ≤ 2 then some (tenBlocks number) else none

/-- The main chain still has the first of them at hand. -/
def info : ChainInfo := ⟨"side_1", 0, some (tenBlocks 0)⟩

theorem stored : Epoch.Stored (records.loadEpoch · info.chainId) 2 := by
  have hload : ∀ i e, records.loadEpoch i info.chainId = some e → i ≤ 2 ∧ e = tenBlocks i := by
    intro i e he
    by_cases hi : i ≤ 2
    · exact ⟨hi, (Option.some.inj ((if_pos hi).symm.trans he)).symm⟩
    · exact absurd ((if_neg hi).symm.trans he) (by simp)
  refine ⟨by decide, fun i hi => by simp [records, hi], fun i hi => if_neg (by omega), ?_, ?_, ?_⟩
  · intro i e he
    obtain ⟨-, rfl⟩ := hload i e he
    rfl
  · intro i e he
    obtain ⟨hi, rfl⟩ := hload i e he
    refine ⟨Nat.le_add_right _ _, ?_⟩
    show 10 * i + 9 < 2 ^ 64
    omega
  · intro i e e' he he'
    obtain ⟨-, rfl⟩ := hload i e he
    obtain ⟨-, rfl⟩ := hload _ e' he'
    show 10 * (i + 1) = 10 * i + 9 + 1
    omega

/-- A block of the next epoch is found. -/
theorem lookupsRight_iff_nextEpoch : records.LookupsRight info (tenBlocks 0) 15 ↔
    ∀ next, records.loadEpoch 1 info.chainId = some next → 15 ≤ next.endBlock :=
  ChainInfoDB.lookupsRight_iff records info (tenBlocks 0) 2 15 stored rfl rfl (by decide)

/-- Block 25 is in the third epoch, and the second one is returned for it. -/
theorem lookup_returns_wrong_epoch :
    records.getEpochByBlockNumber info 25 = some (tenBlocks 1) ∧
      (tenBlocks 1).covers 25 = false ∧ (tenBlocks 2).covers 25 = true ∧
        ¬ records.LookupsRight info (tenBlocks 0) 25 := by
  refine ⟨rfl, rfl, rfl, ?_⟩
  rintro ⟨-, hright, -⟩
  exact absurd (hright (tenBlocks 1) rfl) (by decide)

end ThreeEpochs

end NeatPoS
