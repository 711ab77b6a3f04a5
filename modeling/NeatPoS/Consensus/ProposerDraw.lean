import Mathlib.Data.List.Rotate
import NeatPoS.Consensus.ProposerAgreement

/-!
# How often a validator proposes

In round 0 the proposer is drawn.  `proposerByVRF` takes the hash of the last header modulo the
total voting power, and then goes through the validators and subtracts their powers until the number
is negative.  So the residues are cut into intervals, one for each validator and as long as its
power (`countP_vrfLoop`).

In the later rounds the validators take turns, counted from the one of round 0.  That one is in
`vrfValIndex`, which is -1 from the start of a height until `proposerByRound` is called for round 0.
A call for a later round does not draw, it panics.  And the sum of index and round is a machine
integer: in the last rounds there are it becomes negative, which panics as well unless the remainder
happens to be 0.  `eachOnce_iff` says that in all other rounds each validator has its turn.
-/

set_option autoImplicit false

namespace NeatPoS

open Stateful

/-- The total voting power. -/
def totalPower (vs : List Validator) : Int := (vs.map (·.votingPower)).sum

/-- **A weighted draw.**  Whatever the header, a validator with a positive power is drawn.  The draw
depends on the residue of the hash, and a validator has as many residues as votes. -/
structure WeightedDraw (env : Env) (vs : List Validator) : Prop where
  drawn : ∀ headerHash, ∃ (i : Nat) (v : Validator),
    proposerByVRF env headerHash vs = .ok i ∧ vs[i]? = some v ∧ 0 < v.votingPower
  residue : ∀ headerHash, proposerByVRF env headerHash vs =
    .ok (vrfLoop vs (env.sha256 (List.replicate 8 0 ++ headerHash) % totalPower vs) 0)
  share : ∀ (i : Nat) (v : Validator), vs[i]? = some v →
    ((List.range (totalPower vs).toNat).countP fun n : Nat => vrfLoop vs n 0 = i : Int) = v.votingPower

/-- In as many rounds as there are validators, `first` and those after it, each validator is
selected once. -/
def EachOnce (env : Env) (cs : ConsensusState) (first : Int) : Prop :=
  ∃ vs : List Validator, vs.Perm cs.validators.validators ∧
    ∀ k < cs.validators.size, ∃ v, vs[k]? = some v ∧
      proposerByRound env (first + k) cs = .ok v cs

/-! ## The intervals -/

section
variable {vs : List Validator}

theorem totalPower_cons (v : Validator) (vs : List Validator) :
    totalPower (v :: vs) = v.votingPower + totalPower vs := by
  rw [totalPower, List.map_cons, List.sum_cons, totalPower]

theorem totalPower_nonneg (h : ∀ v ∈ vs, 0 ≤ v.votingPower) : 0 ≤ totalPower vs := by
  refine List.sum_nonneg fun p hp => ?_
  obtain ⟨v, hv, rfl⟩ := List.mem_map.1 hp
  exact h v hv

/-- A number below the total power selects a validator with a positive power. -/
theorem vrfLoop_positive (h : ∀ v ∈ vs, 0 ≤ v.votingPower) {n : Int} (hn : 0 ≤ n)
    (hlt : n < totalPower vs) (i : Int) :
    ∃ (j : Nat) (v : Validator), vrfLoop vs n i = i + j ∧ vs[j]? = some v ∧ 0 < v.votingPower := by
  induction vs generalizing n i with
  | nil => exact absurd hlt (by simp [totalPower]; omega)
  | cons v _ ih =>
    rw [totalPower_cons] at hlt
    rw [vrfLoop]
    split
    · exact ⟨0, v, by simp, rfl, by omega⟩
    · obtain ⟨j, w, hj, hw, hpos⟩ :=
        ih (fun w hw => h w (List.mem_cons_of_mem v hw)) (n := n - v.votingPower) (by omega)
          (by omega) (i + 1)
      exact ⟨j + 1, w, by omega, hw, hpos⟩

theorem countP_vrfLoop_cons {v : Validator} {w : Nat} (hw : v.votingPower = w) (m : Nat) (i x : Int) :
    ((List.range (w + m)).countP fun n : Nat => vrfLoop (v :: vs) n i = x) =
      (if x = i then w else 0) + (List.range m).countP fun n : Nat => vrfLoop vs n (i + 1) = x := by
  have hhead : ((List.range w).countP fun n : Nat => vrfLoop (v :: vs) n i = x) =
      if x = i then w else 0 := by
    have hall : ∀ n ∈ List.range w, vrfLoop (v :: vs) n i = i := by
      intro n hn
      rw [vrfLoop, if_pos (by rw [List.mem_range] at hn; omega)]
    split
    · rename_i hx
      rw [List.countP_eq_length.2, List.length_range]
      intro n hn
      simp [hall n hn, hx]
    · rename_i hx
      rw [List.countP_eq_zero]
      intro n hn
      simp [hall n hn, Ne.symm hx]
  rw [List.range_add, List.countP_append, hhead, List.countP_map]
  congr 1
  refine List.countP_congr fun n _ => ?_
  have hloop : vrfLoop (v :: vs) ((w + n : Nat) : Int) i = vrfLoop vs n (i + 1) := by
    rw [vrfLoop, if_neg (by omega), hw]
    congr 1
    omega
  simp only [Function.comp_apply, hloop]

/-- **The share of a validator** is its power. -/
theorem countP_vrfLoop (h : ∀ v ∈ vs, 0 ≤ v.votingPower) {j : Nat} {v : Validator}
    (hv : vs[j]? = some v) {i : Int} (hi : 0 ≤ i) :
    ((List.range (totalPower vs).toNat).countP fun n : Nat => vrfLoop vs n i = i + j : Int) =
      v.votingPower := by
  induction vs generalizing i j with
  | nil => simp at hv
  | cons w vs ih =>
    have htail : ∀ v ∈ vs, 0 ≤ v.votingPower := fun v hv => h v (List.mem_cons_of_mem w hv)
    obtain ⟨p, hp⟩ := Int.eq_ofNat_of_zero_le (h w (List.mem_cons_self ..))
    have htotal : (totalPower (w :: vs)).toNat = p + (totalPower vs).toNat := by
      have := totalPower_nonneg htail
      rw [totalPower_cons]
      omega
    rw [htotal, countP_vrfLoop_cons hp]
    cases j with
    | zero =>
      cases hv
      -- The other validators have larger indices.
      have hrest : ((List.range (totalPower vs).toNat).countP fun n : Nat =>
          vrfLoop vs n (i + 1) = i + (0 : Nat)) = 0 := by
        rw [List.countP_eq_zero]
        intro n _
        rcases vrfLoop_range vs n (i + 1) (by omega) with hr | hr <;>
          simp only [decide_eq_true_eq] <;> omega
      rw [hrest, if_pos (by simp), hp]
      rfl
    | succ j =>
      have hstep : i + ((j + 1 : Nat) : Int) = i + 1 + j := by omega
      rw [hstep, if_neg (by omega), Nat.zero_add]
      exact ih htail hv (by omega)

/-- The draw is weighted whenever somebody has a vote. -/
theorem weightedDraw (env : Env) (h : ∀ v ∈ vs, 0 ≤ v.votingPower) (htotal : 0 < totalPower vs) :
    WeightedDraw env vs := by
  have hresidue : ∀ headerHash, proposerByVRF env headerHash vs =
      .ok (vrfLoop vs (env.sha256 (List.replicate 8 0 ++ headerHash) % totalPower vs) 0) :=
    fun headerHash => if_neg htotal.ne'
  refine ⟨fun headerHash => ?_, hresidue, fun i v hv => ?_⟩
  · obtain ⟨j, v, hj, hv, hpos⟩ := vrfLoop_positive h
      (Int.emod_nonneg (env.sha256 (List.replicate 8 0 ++ headerHash)) htotal.ne')
      (Int.emod_lt_of_pos _ htotal) 0
    exact ⟨j, v, by rw [hresidue, hj, zero_add], hv, hpos⟩
  · simpa using countP_vrfLoop h hv le_rfl

end

/-! ## The turns -/

/-- A negative number leaves a negative remainder or none. -/
theorem dvd_of_tmod_nonneg {a n : Int} (hn : n ≠ 0) (ha : a < 0) (h : 0 ≤ a.tmod n) : n ∣ a := by
  have hneg : a.tmod n = -((-a) % n) := by
    rw [← Int.tmod_eq_emod_of_nonneg (by omega), Int.neg_tmod, neg_neg]
  have hpos := Int.emod_nonneg (-a) hn
  rw [← Int.dvd_neg]
  exact Int.dvd_of_emod_eq_zero (by omega)

section
variable {env : Env} {cs : ConsensusState} {first : Int}

theorem proposerByRound_later {round : Int} (hround : round ≠ 0) (hchosen : 0 ≤ cs.vrfValIndex)
    (hsize : cs.validators.size ≠ 0) :
    proposerByRound env round cs =
      fromExcept (proposerAt ((int64 (cs.vrfValIndex + round)).tmod cs.validators.size) cs) cs := by
  rw [proposerByRound, get_bind_apply, if_neg hround, if_neg (by omega), if_neg hsize]

/-- If a later round has a proposer, then round 0 had one, and the index is not negative. -/
theorem of_proposerByRound {round : Int} (hround : round ≠ 0) {v : Validator}
    (h : proposerByRound env round cs = .ok v cs) :
    0 ≤ cs.vrfValIndex ∧ 0 ≤ (int64 (cs.vrfValIndex + round)).tmod cs.validators.size := by
  by_cases hchosen : cs.vrfValIndex < 0
  · rw [proposerByRound, get_bind_apply, if_neg hround, if_pos hchosen] at h
    cases h
  refine ⟨by omega, ?_⟩
  by_cases hsize : cs.validators.size = 0
  · rw [proposerByRound, get_bind_apply, if_neg hround, if_neg hchosen, if_pos hsize] at h
    cases h
  · rw [proposerByRound_later hround (by omega) hsize] at h
    by_contra hneg
    rw [proposerAt, if_pos (.inr (by omega))] at h
    exact absurd h (by simp [fromExcept])

/-- Without an overflow, or with one that leaves no remainder, the turns go round. -/
theorem tmod_eq_emod {first : Int} {n k : Nat} {i : Int} (hi : 0 ≤ i) (hfirst : 1 ≤ first) (hk : k < n)
    (h : n = 1 ∨ i + first + n - 1 < 2 ^ 63 ∨ i + first + n - 1 = 2 ^ 63 ∧ (n : Int) ∣ 2 ^ 63) :
    (int64 (i + (first + k))).tmod n = (i + (first + k)) % n := by
  rcases h with rfl | hsmall | ⟨hlast, hdvd⟩
  · simp
  · rw [int64_eq_self (by omega) (by omega), Int.tmod_eq_emod_of_nonneg (by omega)]
  by_cases hend : k + 1 = n
  · -- The last sum is the first one that overflows.
    have hsum : i + (first + k) = 2 ^ 63 := by omega
    rw [hsum, int64_eq_sub le_rfl (by norm_num), Int.emod_eq_zero_of_dvd hdvd]
    exact Int.tmod_eq_zero_of_dvd (by norm_num at hdvd ⊢; exact hdvd)
  · rw [int64_eq_self (by omega) (by omega), Int.tmod_eq_emod_of_nonneg (by omega)]

theorem eachOnce_of_range (hchosen : 0 ≤ cs.vrfValIndex) (hfirst : 1 ≤ first)
    (h : cs.validators.size = 1 ∨ cs.vrfValIndex + first + cs.validators.size - 1 < 2 ^ 63 ∨
      cs.vrfValIndex + first + cs.validators.size - 1 = 2 ^ 63 ∧
        (cs.validators.size : Int) ∣ 2 ^ 63) : EachOnce env cs first := by
  refine ⟨cs.validators.validators.rotate (cs.vrfValIndex + first).toNat, List.rotate_perm .., ?_⟩
  intro k hk
  have hlen : cs.validators.validators.length = cs.validators.size := rfl
  have hidx := tmod_eq_emod hchosen hfirst hk h
  have hmod : ((cs.vrfValIndex + (first + k)) % cs.validators.size).toNat =
      (k + (cs.vrfValIndex + first).toNat) % cs.validators.size := by
    have hcast : cs.vrfValIndex + (first + k) =
        ((k + (cs.vrfValIndex + first).toNat : Nat) : Int) := by omega
    rw [hcast, ← Int.natCast_emod, Int.toNat_natCast]
  have hlt : (k + (cs.vrfValIndex + first).toNat) % cs.validators.size < cs.validators.size :=
    Nat.mod_lt _ (by omega)
  have hlow : 0 ≤ (cs.vrfValIndex + (first + k)) % cs.validators.size :=
    Int.emod_nonneg _ (by omega)
  refine ⟨cs.validators.validators[(k + (cs.vrfValIndex + first).toNat) % cs.validators.size], ?_, ?_⟩
  · rw [List.getElem?_rotate (hlen ▸ hk), hlen]
    exact List.getElem?_eq_getElem hlt
  · rw [proposerByRound_later (by omega) hchosen (by omega), hidx, proposerAt, if_neg (by omega), hmod,
      List.getElem?_eq_getElem hlt]
    rfl

theorem range_of_eachOnce (hidx : cs.vrfValIndex < 2 ^ 63) (hfirst : 1 ≤ first)
    (hint : first + cs.validators.size ≤ 2 ^ 63) (h : EachOnce env cs first)
    (hsize : cs.validators.size ≠ 0) :
    0 ≤ cs.vrfValIndex ∧ (cs.validators.size = 1 ∨
      cs.vrfValIndex + first + cs.validators.size - 1 < 2 ^ 63 ∨
        cs.vrfValIndex + first + cs.validators.size - 1 = 2 ^ 63 ∧
          (cs.validators.size : Int) ∣ 2 ^ 63) := by
  obtain ⟨vs, -, hrounds⟩ := h
  have hnonneg : ∀ k < cs.validators.size, 0 ≤ cs.vrfValIndex ∧
      0 ≤ (int64 (cs.vrfValIndex + (first + k))).tmod cs.validators.size := by
    intro k hk
    obtain ⟨v, -, hv⟩ := hrounds k hk
    exact of_proposerByRound (by omega) hv
  have hchosen := (hnonneg 0 (by omega)).1
  -- An overflow makes the sum negative.
  have hdvd : ∀ k < cs.validators.size, 2 ^ 63 ≤ cs.vrfValIndex + (first + k) →
      (cs.validators.size : Int) ∣ cs.vrfValIndex + (first + k) - 2 ^ 64 := by
    intro k hk hlarge
    have hk' := (hnonneg k hk).2
    rw [int64_eq_sub hlarge (by omega)] at hk'
    exact dvd_of_tmod_nonneg (by omega) (by omega) hk'
  refine ⟨hchosen, ?_⟩
  by_cases hone : cs.validators.size = 1
  · exact .inl hone
  refine .inr ?_
  rcases lt_trichotomy (cs.vrfValIndex + first + cs.validators.size - 1) (2 ^ 63) with hlt | heq | hgt
  · exact .inl hlt
  · have hlast := hdvd (cs.validators.size - 1) (by omega) (by omega)
    have hsum : cs.vrfValIndex + (first + (cs.validators.size - 1 : Nat)) - 2 ^ 64 = -2 ^ 63 := by
      omega
    rw [hsum, Int.dvd_neg] at hlast
    exact .inr ⟨heq, hlast⟩
  · -- Two sums in a row overflow, and only one validator divides them both.
    have hlast := hdvd (cs.validators.size - 1) (by omega) (by omega)
    have hbefore := hdvd (cs.validators.size - 2) (by omega) (by omega)
    have hunit : (cs.validators.size : Int) ∣ 1 := by
      have hsub := Int.dvd_sub hlast hbefore
      have heq : cs.vrfValIndex + (first + (cs.validators.size - 1 : Nat)) - 2 ^ 64 -
          (cs.vrfValIndex + (first + (cs.validators.size - 2 : Nat)) - 2 ^ 64) = 1 := by omega
      rwa [heq] at hsub
    have := Int.le_of_dvd (by norm_num) hunit
    omega

end

/-- **When the validators take turns.**  The first proposer has been drawn, and the sum of index and
round does not overflow, or only in the last of the rounds and without a remainder. -/
theorem eachOnce_iff {env : Env} {cs : ConsensusState} {first : Int} (hfirst : 1 ≤ first)
    (hint : first + cs.validators.size ≤ 2 ^ 63) (hidx : cs.vrfValIndex < 2 ^ 63) :
    EachOnce env cs first ↔ cs.validators.size = 0 ∨ 0 ≤ cs.vrfValIndex ∧
      (cs.validators.size = 1 ∨ cs.vrfValIndex + first + cs.validators.size - 1 < 2 ^ 63 ∨
        cs.vrfValIndex + first + cs.validators.size - 1 = 2 ^ 63 ∧
          (cs.validators.size : Int) ∣ 2 ^ 63) := by
  refine ⟨fun h => ?_, fun h => ?_⟩
  · by_cases hsize : cs.validators.size = 0
    · exact .inl hsize
    · exact .inr (range_of_eachOnce hidx hfirst hint h hsize)
  · rcases h with hsize | ⟨hchosen, hrange⟩
    · exact ⟨_, List.Perm.refl _, fun k hk => absurd hk (by omega)⟩
    · exact eachOnce_of_range hchosen hfirst hrange

/-- **How the proposers are chosen.**  The draw is weighted, for every list of validators with a
vote.  Once it has been made, the validators take turns in the later rounds of the height. -/
theorem proposers_drawn_and_in_turn (env : Env) (cs : ConsensusState) (first : Int)
    (hchosen : 0 ≤ cs.vrfValIndex) (hfirst : 1 ≤ first)
    (hlast : cs.vrfValIndex + first + cs.validators.size - 1 < 2 ^ 63) :
    (∀ vs : List Validator, (∀ v ∈ vs, 0 ≤ v.votingPower) → 0 < totalPower vs →
      WeightedDraw env vs) ∧ EachOnce env cs first := by
  refine ⟨fun vs h htotal => weightedDraw env h htotal, ?_⟩
  by_cases hsize : cs.validators.size = 0
  · exact ⟨_, List.Perm.refl _, fun k hk => absurd hk (by omega)⟩
  · exact (eachOnce_iff hfirst (by omega) (by omega)).2
      (.inr ⟨hchosen, .inr (.inl hlast)⟩)

namespace SmallNet

/-- A node that has drawn the second validator. -/
def secondDrawn : ConsensusState := { node [2] with vrfValIndex := 1 }

/-- The three rounds after the first one. -/
theorem secondDrawn_in_turn : (∀ vs : List Validator, (∀ v ∈ vs, 0 ≤ v.votingPower) →
      0 < totalPower vs → WeightedDraw (env 0) vs) ∧ EachOnce (env 0) secondDrawn 1 :=
  proposers_drawn_and_in_turn (env 0) secondDrawn 1 (by decide) le_rfl (by decide)

/-- At the start of a height round 1 has no proposer, and neither has the last round, after the
second validator has been drawn. -/
theorem eachOnce_fails : ¬ EachOnce (env 0) (node [2]) 1 ∧
    ¬ EachOnce (env 0) secondDrawn (2 ^ 63 - 3) := by
  refine ⟨fun h => ?_, fun h => ?_⟩
  · exact absurd ((eachOnce_iff le_rfl (by decide) (by decide)).1 h) (by decide)
  · exact absurd ((eachOnce_iff (by decide) (by decide) (by decide)).1 h) (by decide)

end SmallNet

end NeatPoS
