import NeatPoS.Types.Basic
import NeatPoS.Lib.Quorum
import Mathlib.Tactic.Linarith

/-!
# Validator sets and commits

`types/validator_set.go`, and `Loose23MajorThreshold` from `types/vote_set.go`.

The threshold is what the file is about.  It starts at two thirds of the total and is lowered by a
ninetieth of the total for every round, down to one half; `total_lt_two_mul_threshold` says that it
always stays above one half, which is what makes two quorums meet (`quorums_share`).  But the round
is a 64-bit `int` that a peer chooses, `2*LooseRound-round` is computed in 64 bits, and for the
sixty-one lowest rounds the difference wraps round to a negative number.  `threshold_le_of_wrap`
shows what is left of the quorum there, and `verifyCommit_sound_iff` that those rounds are exactly
the ones for which `VerifyCommit` accepts a minority.
-/

set_option autoImplicit false

namespace NeatPoS

open Quorum

/-- `LooseRound`. -/
def looseRound : Int := 30

/-- `HalfLooseRound`. -/
def halfLooseRound : Int := 15

/-- The value of an `int64` expression: arithmetic modulo `2 ^ 64`, read as a signed number. -/
def int64 (x : Int) : Int := Int.bmod x (2 ^ 64)

/-- `Loose23MajorThreshold`.  `big.Int`'s `Div` is the Euclidean division. -/
def loose23MajorThreshold (totalVotingPower : Int) (round : Int) : Int :=
  let round := if round ≥ halfLooseRound then halfLooseRound else round
  (totalVotingPower * int64 (2 * looseRound - round) + 3 * looseRound) / (3 * looseRound)

/-- `types.ValidatorSet`. -/
structure ValidatorSet where
  validators : List Validator
deriving DecidableEq, Repr

/-- Why `TalliedVotingPower` fails. -/
inductive TallyError where
  /-- `invalid bitmap(nil)` -/
  | nilBitmap
  /-- `invalid validators(nil)` -/
  | nilValidators
  /-- `size is not equal, validators size:%v, bitmap size:%v` -/
  | sizeMismatch (validators bitmap : Nat)
deriving DecidableEq, Repr

/-- Why `VerifyCommit` fails. -/
inductive CommitError where
  /-- `invalid commit(nil)` -/
  | nilCommit
  /-- `invalid commit -- wrong set size: %v vs %v` -/
  | wrongSetSize (validators bitmap : Nat)
  /-- `invalid commit -- wrong height: %v vs %v` -/
  | wrongHeight (expected got : Nat)
  /-- `invalid commit -- wrong Signature:%v or BitArray:%v` -/
  | wrongSignature (signAggr : Bytes) (bitArray : Option BitArray)
  | tally (e : TallyError)
  /-- `invalid commit -- insufficient voting power: got %v, needed %v` -/
  | insufficientVotingPower (got needed : Int)
deriving DecidableEq, Repr

namespace ValidatorSet

/-- `ValidatorSet.Size`. -/
def size (vs : ValidatorSet) : Nat := vs.validators.length

/-- The voting powers, in the order of the set. -/
def powers (vs : ValidatorSet) : List Int := vs.validators.map (·.votingPower)

variable {vs : ValidatorSet}

theorem getElem?_powers_eq_some {i : Nat} {w : Int} :
    vs.powers[i]? = some w ↔ ∃ v, vs.validators[i]? = some v ∧ v.votingPower = w := by
  rw [powers, List.getElem?_map, Option.map_eq_some_iff]

/-- `ValidatorSet.GetByAddress`: the first validator with the address, with its index. -/
def getByAddress (vs : ValidatorSet) (address : Bytes) : Nat × Option Validator :=
  match vs.validators.findIdx? (fun v => v.address == address) with
  | some idx => (idx, vs.validators[idx]?)
  | none => (0, none)

/-- `ValidatorSet.HasAddress`. -/
def hasAddress (vs : ValidatorSet) (address : Bytes) : Bool :=
  vs.validators.any (fun v => v.address == address)

theorem getByAddress_of_hasAddress {address : Bytes} (h : vs.hasAddress address = true) :
    ∃ v, vs.validators[(vs.getByAddress address).1]? = some v ∧ v.address = address := by
  rw [hasAddress, List.any_eq_true] at h
  obtain ⟨v, hv, haddress⟩ := h
  cases hfind : vs.validators.findIdx? (fun v => v.address == address) with
  | none => exact absurd haddress (by simpa using List.findIdx?_eq_none_iff.1 hfind v hv)
  | some =>
    obtain ⟨hi, hp, -⟩ := List.findIdx?_eq_some_iff_getElem.1 hfind
    refine ⟨_, ?_, beq_iff_eq.1 hp⟩
    rw [getByAddress, hfind]
    exact List.getElem?_eq_getElem hi

/-- Validators with one index have one address. -/
theorem getByAddress_inj {a b : Bytes} (ha : vs.hasAddress a = true)
    (hb : vs.hasAddress b = true) (h : (vs.getByAddress a).1 = (vs.getByAddress b).1) : a = b := by
  obtain ⟨_, hv, rfl⟩ := getByAddress_of_hasAddress ha
  obtain ⟨_, hw, rfl⟩ := getByAddress_of_hasAddress hb
  rw [h, hw] at hv
  rw [Option.some.inj hv]

/-- `ValidatorSet.Hash`. -/
def hash (lib : Neatlib) (vs : ValidatorSet) : Bytes :=
  if vs.validators.isEmpty then [] else lib.validatorsHash vs.validators

/-- The loop of `TalliedVotingPower`, with its three sums. -/
def tallyLoop : List Bool → List Validator → Int × Int × Int → Int × Int × Int
  | b :: bs, v :: vs, (powerSum, votesSum, totalVotes) =>
    if b then tallyLoop bs vs (powerSum + 1, votesSum + v.votingPower, totalVotes + v.votingPower)
    else tallyLoop bs vs (powerSum, votesSum, totalVotes + v.votingPower)
  | _, _, sums => sums

/-- `ValidatorSet.TalliedVotingPower`: how many bits are set, what they weigh, and the total. -/
def talliedVotingPower (vs : ValidatorSet) (bitMap : Option BitArray) :
    Except TallyError (Int × Int × Int) :=
  match bitMap with
  | none => .error .nilBitmap
  | some bits =>
    -- the source tells a nil slice from an empty one; no set is built with the latter
    if vs.validators.isEmpty then .error .nilValidators
    else if vs.size ≠ bits.length then .error (.sizeMismatch vs.size bits.length)
    else .ok (tallyLoop bits vs.validators (0, 0, 0))

/-- The public keys of the validators whose bit is set. -/
def selectedKeys : List Bool → List Validator → List Bytes
  | b :: bs, v :: vs => if b then v.pubKey :: selectedKeys bs vs else selectedKeys bs vs
  | _, _ => []

/-- `ValidatorSet.AggrPubKey`; nil on a bit array of the wrong size. -/
def aggrPubKey (lib : Neatlib) (vs : ValidatorSet) (bitMap : Option BitArray) : Option Bytes :=
  match bitMap with
  | none => none
  | some bits =>
    if bits.length ≠ vs.validators.length then none
    else lib.blsPubKeyAggregate (selectedKeys bits vs.validators)

/-- `ValidatorSet.VerifyCommit`.  The result is nil (`none`) or an error; a nil aggregate key
makes the call of `VerifyBytes` panic. -/
def verifyCommit (lib : Neatlib) (vs : ValidatorSet) (chainID : String) (height : Nat)
    (commit : Option Commit) : Except Panic (Option CommitError) :=
  match commit with
  | none => .ok (some .nilCommit)
  | some commit =>
    if vs.size ≠ bitArraySize commit.bitArray then
      .ok (some (.wrongSetSize vs.size (bitArraySize commit.bitArray)))
    else if height ≠ commit.height then
      .ok (some (.wrongHeight height commit.height))
    else
      match vs.aggrPubKey lib commit.bitArray with
      | none => .error .nilDereference
      | some pubKey =>
        let msg := lib.voteSignBytes
          ⟨chainID, commit.blockID, commit.height, commit.round, .precommit⟩
        if !lib.verifyBytes pubKey msg commit.signAggr then
          .ok (some (.wrongSignature commit.signAggr commit.bitArray))
        else
          match vs.talliedVotingPower commit.bitArray with
          | .error e => .ok (some (.tally e))
          | .ok (_, votesSum, totalVotes) =>
            let quorum := loose23MajorThreshold totalVotes commit.round
            if quorum ≤ votesSum then .ok none
            else .ok (some (.insufficientVotingPower votesSum quorum))

/-! ## The tally -/

theorem tallyLoop_eq (bs : List Bool) (vs : List Validator) (hlen : bs.length = vs.length)
    (p v t : Int) :
    tallyLoop bs vs (p, v, t) =
      (p + bs.count true, v + weight bs (vs.map (·.votingPower)),
        t + (vs.map (·.votingPower)).sum) := by
  induction bs generalizing vs p v t with
  | nil =>
    rw [List.length_eq_zero_iff.1 hlen.symm]
    simp [tallyLoop]
  | cons b bs ih =>
    match vs with
    | [] => simp at hlen
    | x :: vs =>
      have hlen' : bs.length = vs.length := by simpa using hlen
      cases b with
      | true =>
        rw [tallyLoop, if_pos rfl, ih vs hlen']
        simp only [List.map_cons, weight_true_cons, List.sum_cons, List.count_cons_self]
        refine Prod.ext ?_ (Prod.ext ?_ ?_) <;> push_cast <;> omega
      | false =>
        rw [tallyLoop, if_neg (by simp), ih vs hlen']
        simp only [List.map_cons, weight_false_cons, List.sum_cons]
        refine Prod.ext ?_ (Prod.ext rfl ?_)
        · simp
        · exact Int.add_assoc _ _ _

/-- What a successful tally has counted. -/
theorem talliedVotingPower_eq_ok {bm : Option BitArray} {p v t : Int}
    (h : vs.talliedVotingPower bm = .ok (p, v, t)) :
    ∃ bits, bm = some bits ∧ bits.length = vs.size ∧ v = weight bits vs.powers ∧
      t = vs.powers.sum := by
  rw [talliedVotingPower.eq_def] at h
  cases bm with
  | none => simp at h
  | some bits =>
    simp only at h
    split at h
    · simp at h
    split at h
    · simp at h
    rename_i hsize
    have hlen : bits.length = vs.validators.length := by
      rw [size] at hsize
      omega
    rw [tallyLoop_eq bits vs.validators hlen] at h
    simp only [Except.ok.injEq, Prod.mk.injEq, zero_add] at h
    exact ⟨bits, rfl, hlen, h.2.1.symm, h.2.2.symm⟩

theorem talliedVotingPower_of_length {bits : BitArray}
    (hne : vs.validators ≠ []) (hlen : bits.length = vs.size) :
    vs.talliedVotingPower (some bits) =
      .ok (bits.count true, weight bits vs.powers, vs.powers.sum) := by
  rw [talliedVotingPower.eq_def]
  simp only
  rw [if_neg (by simpa using hne), if_neg (by omega), tallyLoop_eq bits vs.validators hlen]
  simp [powers]

end ValidatorSet

/-! ## The threshold -/

theorem int64_eq_self {x : Int} (h₁ : -2 ^ 63 ≤ x) (h₂ : x < 2 ^ 63) : int64 x = x := by
  rw [int64]
  exact Int.bmod_eq_of_le (by omega) (by omega)

theorem int64_eq_sub {x : Int} (h₁ : 2 ^ 63 ≤ x) (h₂ : x < 2 ^ 64) : int64 x = x - 2 ^ 64 := by
  have h : int64 x = int64 (x - 2 ^ 64) := by
    have hx : x = (x - 2 ^ 64) + ((2 ^ 64 : Nat) : Int) := by omega
    rw [int64, hx, Int.add_bmod_right, int64]
    simp
  rw [h, int64_eq_self (by omega) (by omega)]

/-- The factor of the threshold, when the subtraction does not wrap. -/
theorem int64_factor {r : Int} (h : 60 - 2 ^ 63 < r) :
    45 ≤ int64 (2 * looseRound - if r ≥ halfLooseRound then halfLooseRound else r) := by
  rw [looseRound, halfLooseRound]
  split
  · rw [int64_eq_self (by norm_num) (by norm_num)]
    norm_num
  · rw [int64_eq_self (by omega) (by omega)]
    omega

/-- **The threshold is above one half**, for every round whose distance to sixty is an `int64`. -/
theorem total_lt_two_mul_threshold {total r : Int} (ht : 0 ≤ total) (h : 60 - 2 ^ 63 < r) :
    total < 2 * loose23MajorThreshold total r := by
  have hk := int64_factor h
  rw [loose23MajorThreshold]
  generalize int64 (2 * looseRound - if r ≥ halfLooseRound then halfLooseRound else r) = k at *
  have hmul : total * 45 ≤ total * k := Int.mul_le_mul_of_nonneg_left hk ht
  rw [looseRound]
  omega

/-- When the subtraction wraps, nothing is left of the quorum. -/
theorem threshold_le_of_wrap {total r : Int} (ht : 0 < total) (h₁ : -2 ^ 63 ≤ r)
    (h₂ : r ≤ 60 - 2 ^ 63) : loose23MajorThreshold total r ≤ 0 := by
  have hk : int64 (2 * looseRound - if r ≥ halfLooseRound then halfLooseRound else r) ≤ -90 := by
    rw [looseRound, halfLooseRound, if_neg (by omega), int64_eq_sub (by omega) (by omega)]
    omega
  rw [loose23MajorThreshold]
  generalize int64 (2 * looseRound - if r ≥ halfLooseRound then halfLooseRound else r) = k at *
  have hmul : total * k ≤ total * (-90) := Int.mul_le_mul_of_nonneg_left hk ht.le
  rw [looseRound]
  omega

/-- The threshold in a round that has come up in a run, which is not negative. -/
theorem threshold_of_nonneg {total r : Int} (hr : 0 ≤ r) :
    loose23MajorThreshold total r = (total * (60 - min r 15) + 90) / 90 := by
  have hround : (if r ≥ halfLooseRound then halfLooseRound else r) = min r 15 := by
    rw [halfLooseRound]
    split <;> omega
  have hfactor : int64 (2 * looseRound - min r 15) = 60 - min r 15 := by
    rw [looseRound]
    exact int64_eq_self (by omega) (by omega)
  rw [loose23MajorThreshold]
  simp only [hround, hfactor]
  norm_num [looseRound]

/-- Later rounds ask for less. -/
theorem threshold_anti {total r₁ r₂ : Int} (ht : 0 ≤ total) (h₁ : 0 ≤ r₁) (h : r₁ ≤ r₂) :
    loose23MajorThreshold total r₂ ≤ loose23MajorThreshold total r₁ := by
  rw [threshold_of_nonneg h₁, threshold_of_nonneg (h₁.trans h)]
  have hmul : total * (60 - min r₂ 15) ≤ total * (60 - min r₁ 15) :=
    Int.mul_le_mul_of_nonneg_left (by omega) ht
  exact Int.ediv_le_ediv (by norm_num) (by omega)

/-- In round 0 the threshold is two thirds of the total, rounded down, and one more. -/
theorem threshold_zero (total : Int) : loose23MajorThreshold total 0 = 2 * total / 3 + 1 := by
  rw [threshold_of_nonneg le_rfl, min_eq_left (by norm_num)]
  omega

/-- All validators together always reach the threshold. -/
theorem threshold_le_total {total r : Int} (ht : 0 < total) (hr : 0 ≤ r) :
    loose23MajorThreshold total r ≤ total := by
  have hanti := threshold_anti ht.le le_rfl hr
  rw [threshold_zero] at hanti
  omega

/-! ## Two quorums -/

namespace ValidatorSet

/-- The validators whose bit is set reach the threshold of the round. -/
def ReachesThreshold (vs : ValidatorSet) (round : Int) (bits : BitArray) : Prop :=
  ∃ n votesSum totalVotes, vs.talliedVotingPower (some bits) = .ok (n, votesSum, totalVotes) ∧
    loose23MajorThreshold totalVotes round ≤ votesSum

theorem reachesThreshold_iff {vs : ValidatorSet} {round : Int} {bits : BitArray} :
    vs.ReachesThreshold round bits ↔ vs.validators ≠ [] ∧ bits.length = vs.size ∧
      loose23MajorThreshold vs.powers.sum round ≤ weight bits vs.powers := by
  constructor
  · rintro ⟨_, _, _, htally, hthr⟩
    obtain ⟨_, heq, hlen, rfl, rfl⟩ := talliedVotingPower_eq_ok htally
    cases heq
    refine ⟨fun hnil ↦ ?_, hlen, hthr⟩
    simp [talliedVotingPower, hnil] at htally
  · rintro ⟨hne, hlen, hthr⟩
    exact ⟨_, _, _, talliedVotingPower_of_length hne hlen, hthr⟩

/-- **Quorums meet**, whatever the rounds they are taken in: two sets of validators that reach the
threshold share a validator that has power, and in round 0 they share more than a third of it.  The
threshold never rises with the round and is never out of reach. -/
theorem quorums_share (vs : ValidatorSet) (hnn : ∀ w ∈ vs.powers, 0 ≤ w)
    (hpos : 0 < vs.powers.sum) (r₁ r₂ : Int) (h₁ : 0 ≤ r₁) (h₂ : 0 ≤ r₂) :
    (∀ a b, vs.ReachesThreshold r₁ a → vs.ReachesThreshold r₂ b →
      ∃ (i : Nat) (v : Validator), a[i]? = some true ∧ b[i]? = some true ∧
        vs.validators[i]? = some v ∧ 0 < v.votingPower) ∧
    (∀ a b, vs.ReachesThreshold 0 a → vs.ReachesThreshold 0 b →
      ∃ n shared total, vs.talliedVotingPower (some (List.zipWith and a b)) =
        .ok (n, shared, total) ∧ total < 3 * shared) ∧
    (r₁ ≤ r₂ → loose23MajorThreshold vs.powers.sum r₂ ≤ loose23MajorThreshold vs.powers.sum r₁) ∧
    loose23MajorThreshold vs.powers.sum r₁ ≤ vs.powers.sum := by
  refine ⟨?_, ?_, threshold_anti hpos.le h₁, threshold_le_total hpos h₁⟩
  · intro a b ha hb
    obtain ⟨-, -, ha⟩ := reachesThreshold_iff.1 ha
    obtain ⟨-, -, hb⟩ := reachesThreshold_iff.1 hb
    have hhalf₁ := total_lt_two_mul_threshold (r := r₁) hpos.le (by omega)
    have hhalf₂ := total_lt_two_mul_threshold (r := r₂) hpos.le (by omega)
    obtain ⟨i, w, hia, hib, hw, hwpos⟩ := exists_common_pos a b vs.powers hnn (by omega)
    obtain ⟨v, hv, rfl⟩ := getElem?_powers_eq_some.1 hw
    exact ⟨i, v, hia, hib, hv, hwpos⟩
  · intro a b ha hb
    obtain ⟨hne, hla, ha⟩ := reachesThreshold_iff.1 ha
    obtain ⟨-, hlb, hb⟩ := reachesThreshold_iff.1 hb
    refine ⟨_, _, _, talliedVotingPower_of_length hne (by simp [hla, hlb]), ?_⟩
    have hle := weight_add_weight_le a b vs.powers hnn
    rw [threshold_zero] at ha hb
    omega

/-- Four validators of one vote each. -/
def fourEqual : ValidatorSet := ⟨[1, 2, 3, 4].map fun b => ⟨[b], [b], 1, 0⟩⟩

/-- The first three of four equal validators are a quorum, and so are the last three. -/
theorem quorums_share_fourEqual :
    (∃ (i : Nat) (v : Validator), [true, true, true, false][i]? = some true ∧
        [false, true, true, true][i]? = some true ∧ fourEqual.validators[i]? = some v ∧
        0 < v.votingPower) ∧
      loose23MajorThreshold fourEqual.powers.sum 0 ≤ fourEqual.powers.sum := by
  have h := quorums_share fourEqual (by decide) (by decide) 0 20 le_rfl (by norm_num)
  exact ⟨h.1 _ _ (reachesThreshold_iff.2 (by decide)) (reachesThreshold_iff.2 (by decide)),
    h.2.2.2⟩

end ValidatorSet

/-! ## What a verified commit is worth -/

/-- The bytes a commit's aggregate signature is checked against. -/
def Commit.signBytes (lib : Neatlib) (chainID : String) (c : Commit) : Bytes :=
  lib.voteSignBytes ⟨chainID, c.blockID, c.height, c.round, .precommit⟩

namespace ValidatorSet

/-- What BLS verification promises about one aggregate: if it verifies, each validator whose bit is
set has signed exactly those bytes. -/
def AggregateSound (lib : Neatlib) (vs : ValidatorSet) (signed : Validator → Bytes → Prop)
    (bitMap : Option BitArray) (msg sig : Bytes) : Prop :=
  ∀ pk, vs.aggrPubKey lib bitMap = some pk → lib.verifyBytes pk msg sig = true →
    ∀ (bits : BitArray) (i : Nat) (v : Validator), bitMap = some bits → bits[i]? = some true →
      vs.validators[i]? = some v → signed v msg

/-- Commits of round `r` are sound: whoever the validators are, a commit of that round that
`VerifyCommit` accepts has the bits of more than half of the total voting power. -/
def CommitSoundAt (r : Int) : Prop :=
  ∀ (lib : Neatlib) (vs : ValidatorSet) (signed : Validator → Bytes → Prop) (chainID : String)
    (height : Nat) (commit : Commit),
    vs.validators ≠ [] → (∀ w ∈ vs.powers, 0 ≤ w) → 0 < vs.powers.sum → commit.round = r →
    AggregateSound lib vs signed commit.bitArray (commit.signBytes lib chainID) commit.signAggr →
    vs.verifyCommit lib chainID height (some commit) = .ok none →
    vs.powers.sum < 2 * weight (commit.bitArray.getD []) vs.powers

/-- `VerifyCommit` returns nil exactly when all of its checks pass. -/
theorem verifyCommit_eq_ok_none {lib : Neatlib} {vs : ValidatorSet} {chainID : String}
    {height : Nat} {commit : Commit} :
    vs.verifyCommit lib chainID height (some commit) = .ok none ↔
      vs.validators ≠ [] ∧ height = commit.height ∧
      ∃ bits pk, commit.bitArray = some bits ∧ bits.length = vs.size ∧
        vs.aggrPubKey lib commit.bitArray = some pk ∧
        lib.verifyBytes pk (commit.signBytes lib chainID) commit.signAggr = true ∧
        loose23MajorThreshold vs.powers.sum commit.round ≤ weight bits vs.powers := by
  constructor
  · intro h
    simp only [verifyCommit] at h
    split at h
    · simp at h
    split at h
    · simp at h
    rename_i hsize hheight
    split at h
    · simp at h
    rename_i pk hpk
    split at h
    · simp at h
    rename_i hver
    split at h
    · simp at h
    rename_i p v t htally
    split at h
    · rename_i hq
      obtain ⟨bits, hbits, hlen, rfl, rfl⟩ := talliedVotingPower_eq_ok htally
      have hne : vs.validators ≠ [] := by
        intro hnil
        rw [hbits, talliedVotingPower, if_pos (by simp [hnil])] at htally
        simp at htally
      exact ⟨hne, by simpa using hheight, bits, pk, hbits, hlen, hpk,
        by simpa [Commit.signBytes] using hver, hq⟩
    · simp at h
  · rintro ⟨hne, hheight, bits, pk, hbits, hlen, hpk, hver, hq⟩
    rw [Commit.signBytes] at hver
    simp only [verifyCommit]
    rw [if_neg (by simp [hbits, bitArraySize, hlen]), if_neg (by simp [hheight]), hpk]
    simp only [hver, Bool.not_true, Bool.false_eq_true, if_false]
    rw [hbits, talliedVotingPower_of_length hne hlen]
    simp only [if_pos hq]

/-- Two validators, of which the first has a tenth of the power. -/
def lopsided : ValidatorSet := ⟨[⟨[1], [1], 1, 0⟩, ⟨[2], [2], 9, 0⟩]⟩

/-- The toy library, in a world without blocks. -/
def loneLib : Neatlib := Neatlib.toy (fun _ => []) (fun _ => none)

/-- A commit of round `r` that the first validator of `lopsided` has signed alone. -/
def loneCommit (r : Int) : Commit where
  blockID := ⟨[7], ⟨1, [7]⟩⟩
  height := 5
  round := r
  signAggr := 1 :: loneLib.voteSignBytes ⟨"neatio", ⟨[7], ⟨1, [7]⟩⟩, 5, r, .precommit⟩
  bitArray := some [true, false]

/-- The lone signer's commit is accepted whenever the threshold has dropped to one. -/
theorem verifyCommit_loneCommit {r : Int} (h : loose23MajorThreshold 10 r ≤ 1) :
    lopsided.verifyCommit loneLib "neatio" 5 (some (loneCommit r)) = .ok none := by
  rw [verifyCommit_eq_ok_none]
  refine ⟨by decide, rfl, [true, false], [1], rfl, rfl, rfl, ?_, ?_⟩
  · simp [loneLib, Neatlib.toy, Commit.signBytes, loneCommit]
  · exact h

theorem not_commitSoundAt_of_wrap {r : Int} (h₁ : -2 ^ 63 ≤ r) (h₂ : r ≤ 60 - 2 ^ 63) :
    ¬ CommitSoundAt r := by
  intro hsound
  have hthr : loose23MajorThreshold 10 r ≤ 0 := threshold_le_of_wrap (by norm_num) h₁ h₂
  have hhalf := hsound loneLib lopsided (fun v _ => v.pubKey = [1]) "neatio" 5 (loneCommit r)
    (by decide) (by decide) (by decide) rfl ?_ (verifyCommit_loneCommit (by omega))
  · have hnot : ¬ lopsided.powers.sum < 2 * weight [true, false] lopsided.powers := by decide
    exact hnot hhalf
  -- the only bit that is set belongs to the validator that has signed
  intro pk _ _ bits i v hbits hi hv
  obtain rfl : [true, false] = bits := Option.some.inj hbits
  match i with
  | 0 => rw [← Option.some.inj hv]
  | 1 => simp at hi
  | i + 2 => simp at hi

/-- **When a commit is worth a majority**: for the 64-bit rounds, exactly when the subtraction in
the threshold does not wrap. -/
theorem verifyCommit_sound_iff (r : Int) (h₁ : -2 ^ 63 ≤ r) (h₂ : r < 2 ^ 63) :
    CommitSoundAt r ↔ 60 - 2 ^ 63 < r := by
  constructor
  · intro hsound
    by_contra hle
    exact not_commitSoundAt_of_wrap h₁ (by omega) hsound
  · intro hr lib vs signed chainID height commit hne hnn hpos hround _ hok
    obtain ⟨_, _, bits, _, hbits, _, _, _, hq⟩ := verifyCommit_eq_ok_none.1 hok
    rw [hbits, Option.getD_some]
    have hthr := total_lt_two_mul_threshold hpos.le (hround ▸ hr)
    omega

theorem verifyCommit_sound_iff_zero : CommitSoundAt 0 ↔ (60 - 2 ^ 63 : Int) < 0 :=
  verifyCommit_sound_iff 0 (by norm_num) (by norm_num)

/-- In the lowest round, a commit that a tenth of the power has signed is accepted. -/
theorem verifyCommit_accepts_minority :
    ¬ ∀ r : Int, -2 ^ 63 ≤ r → r < 2 ^ 63 → CommitSoundAt r := by
  intro h
  exact not_commitSoundAt_of_wrap (r := -2 ^ 63) (by norm_num) (by norm_num)
    (h (-2 ^ 63) (by norm_num) (by norm_num))

end ValidatorSet

end NeatPoS
