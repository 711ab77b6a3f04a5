import NeatPoS.Core.Genesis
import NeatPoS.Engine.Finalize

/-!
# Bans

An epoch bans the validators that have not taken part in it.  Each account has a counter; a block
adds one to the counters of the validators whose bits are set in the seen commit of its parent, the
last block but one bans those whose counter is zero, and the last block sets the counters back.

`AcceptedEpoch.nextStanding` says what one block makes of an account, and `AcceptedEpoch.Counters`
is what holds of the counters after every block.  The bits of an accepted header are as many as the
validators of its epoch, and the first block of an epoch does not count the bits of its parent, so
that the loop over the bits stays inside the validators.  An epoch that finds all counters at zero
leaves them so to the next one.

Nothing else writes the counters, so that the state may change in any way between two runs of
`UpdateBannedState` as long as they stay.  But `Finalise`, which ends every transaction and every
block, deletes accounts that count as empty, and a counter with them: `empty` does not ask for it.
The rule holds for validators whose accounts are kept (`KeepsValidators`).  A validator whose
account is empty is banned even if it has signed every block (`Stray.signer_is_banned`).
-/

set_option autoImplicit false

namespace NeatPoS

variable {n : Nat} {s : StateDB}

/-! ## The bits of a commit -/

/-- The addresses whose bits are set, once for each bit. -/
def signers (bits : List Bool) (vs : List Validator) : List Address :=
  ((bits.zip vs).filter (·.1)).map (·.2.address)

@[simp] theorem signers_nil (vs : List Validator) : signers [] vs = [] := rfl

@[simp] theorem signers_true (bits : List Bool) (v : Validator) (vs : List Validator) :
    signers (true :: bits) (v :: vs) = v.address :: signers bits vs := rfl

@[simp] theorem signers_false (bits : List Bool) (v : Validator) (vs : List Validator) :
    signers (false :: bits) (v :: vs) = signers bits vs := rfl

/-- A bit is set beyond the last validator. -/
def overruns (bits : List Bool) (vs : List Validator) : Bool := (bits.drop vs.length).any id

namespace StateDB

variable (s : StateDB)

/-- What bans depend on: the counter of an account, and whether and how long it is banned. -/
def standing (a : Address) : Nat × Bool × Nat :=
  ((s.accounts a).blockTime, (s.accounts a).isBanned, (s.accounts a).bannedTime)

theorem countMinedBlock_eq (a : Address) :
    s.countMinedBlock a =
      { s with
        accounts := Function.update s.accounts a
          { s.accounts a with live := true, blockTime := (s.accounts a).blockTime + 1 }
        dirty := insert a s.dirty } := by
  have hset : s.countMinedBlock a = s.setAccount a fun acc =>
      { acc with blockTime := (s.accounts a).blockTime + 1 } := by
    show (s.getOrNewStateObject a).setAccount a (fun acc =>
      { acc with blockTime := (s.accounts a).blockTime + 1 }) = _
    rw [setAccount, getOrNewStateObject_idem]
    rfl
  rw [hset, setAccount_eq]

/-- A whole count in closed form. -/
theorem foldl_countMinedBlock (l : List Address) :
    l.foldl countMinedBlock s =
      { s with
        accounts := fun a => if a ∈ l then
            { s.accounts a with live := true, blockTime := (s.accounts a).blockTime + l.count a }
          else s.accounts a
        dirty := s.dirty ∪ l.toFinset } := by
  induction l generalizing s with
  | nil => simp
  | cons b l ih =>
    rw [List.foldl_cons, ih, countMinedBlock_eq]
    congr 1
    · funext a
      by_cases ha : a = b
      · subst ha
        by_cases hmem : a ∈ l
        · simp [hmem, Nat.add_assoc, Nat.add_comm]
        · simp [hmem, List.count_eq_zero.2 hmem]
      · simp [ha, Ne.symm ha]
    · ext a
      simp only [Finset.mem_union, Finset.mem_insert, List.mem_toFinset, List.mem_cons]
      tauto

/-- **What is counted** are the signers, if no bit is set beyond the last validator. -/
theorem countMinedBlocks_eq (bits : List Bool) (vs : List Validator) :
    s.countMinedBlocks bits vs =
      if overruns bits vs then .error .indexOutOfRange
      else .ok ((signers bits vs).foldl countMinedBlock s) := by
  induction bits generalizing vs s with
  | nil => simp [countMinedBlocks, overruns]
  | cons bit _ ih =>
    cases vs with
    | nil =>
      cases bit with
      | false =>
        rw [countMinedBlocks, List.tail_nil, ih]
        simp [overruns, signers]
      | true => rfl
    | cons =>
      cases bit with
      | false =>
        rw [countMinedBlocks, List.tail_cons, ih]
        rfl
      | true =>
        rw [countMinedBlocks, ih]
        rfl

end StateDB

/-! ## One block -/

/-- The bits of the seen commit in a header. -/
def seenBits (lib : Neatlib) (h : Header) : List Bool :=
  (((extractNeatconExtra lib h).bind (·.seenCommit)).bind (·.bitArray)).getD []

/-- The blocks of an epoch that do not count the signers of their parent. -/
def Epoch.Skips (epoch : Epoch) (number : Nat) : Prop :=
  number ≤ 1 ∨ number = epoch.startBlock ∨ number = epoch.endBlock ∨ number = prevU64 epoch.endBlock

instance (epoch : Epoch) (number : Nat) : Decidable (epoch.Skips number) :=
  inferInstanceAs (Decidable (_ ∨ _))

theorem updateValidatorStatus_eq {lib : Neatlib} {p : Header} {epoch : Epoch} {extra : NeatconExtra}
    (hextra : extractNeatconExtra lib p = some extra) :
    updateValidatorStatus lib epoch n (some p) s =
      updateBannedState epoch n extra.seenCommit s := by
  rw [updateValidatorStatus, hextra]
  by_cases hfirst : 1 < n
  · rw [if_pos hfirst]
  · rw [if_neg hfirst, updateBannedState, if_pos (.inl (by omega))]

theorem updateBannedState_of_not_skips {epoch : Epoch} (h : ¬ epoch.Skips n)
    (commit : Option Commit) : updateBannedState epoch n commit s =
      s.countMinedBlocks ((commit.bind (·.bitArray)).getD []) epoch.validators.validators := by
  simp only [Epoch.Skips, not_or] at h
  obtain ⟨hfirst, hstart, hend, hlast⟩ := h
  rw [updateBannedState, if_neg (not_or.2 ⟨hfirst, hstart⟩), if_neg hend, if_neg hlast]
  cases commit.bind (·.bitArray) <;> rfl

/-! ## The counters of an epoch -/

/-- An epoch of a hundred blocks or more, and headers for its blocks, each accepted by a node that
finds the epoch. -/
structure AcceptedEpoch where
  lib : Neatlib
  epoch : Epoch
  header : Nat → Header
  /-- The node that verifies block `n`, and the batch that the header stands in. -/
  node : Nat → Backend
  parents : Nat → List Header
  two_le : 2 ≤ epoch.startBlock
  long : epoch.startBlock + 99 ≤ epoch.endBlock
  endBlock_lt : epoch.endBlock < 2 ^ 64
  lib_eq : ∀ n, (node n).lib = lib
  number : ∀ n ≤ epoch.endBlock, (header n).numberU64 = n
  epochAt : ∀ n, epoch.startBlock ≤ n → n ≤ epoch.endBlock → (node n).epochAt n = .ok (some epoch)
  accepts : ∀ n, epoch.startBlock ≤ n → n ≤ epoch.endBlock →
    (node n).Accepts (parents n) (header n)

namespace AcceptedEpoch

variable (C : AcceptedEpoch)

/-- The validators. -/
def validators : List Validator := C.epoch.validators.validators

/-- The bits of the seen commit of a block. -/
def bits (n : Nat) : List Bool := seenBits C.lib (C.header n)

/-- The bit of a validator is set in the seen commit of a block. -/
def Signed (n : Nat) (a : Address) : Prop :=
  ∃ i : Nat, (C.bits n)[i]? = some true ∧ ∃ v, C.validators[i]? = some v ∧ v.address = a

/-- **The state from block to block**, from one with all counters at zero on.  `UpdateBannedState`
is run at each height.  Between two of its runs the state changes without any change of the
counters, or `Finalise` is run on a state that meets a condition. -/
inductive Counted (ok : StateDB → Prop) : Nat → StateDB → Prop
  | start {s : StateDB} (h : ∀ a, (s.accounts a).blockTime = 0) :
      Counted ok (C.epoch.startBlock - 1) s
  | change {n : Nat} {s t : StateDB} (hs : Counted ok n s)
      (h : ∀ a, (t.accounts a).blockTime = (s.accounts a).blockTime) : Counted ok n t
  | finalise {n : Nat} {s t : StateDB} (hs : Counted ok n s) (hok : ok s) (h : s.finalise = .ok t) :
      Counted ok n t
  | block {n : Nat} {s s' : StateDB} (hs : Counted ok n s)
      (h : updateValidatorStatus C.lib C.epoch (n + 1) (some (C.header n)) s = .ok s') :
      Counted ok (n + 1) s'

/-- `Finalise` deletes no validator of the epoch. -/
def KeepsValidators (s : StateDB) : Prop := ∀ v ∈ C.validators, s.deletes v.address = false

/-- The counters after block `n`: those of other addresses than the validators are zero, and up to
the block before the last but one a counter is zero if the bit of its address has not been set. -/
structure Counters (n : Nat) (s : StateDB) : Prop where
  others : ∀ b, b ∉ C.validators.map (·.address) → (s.standing b).1 = 0
  counted : n + 2 ≤ C.epoch.endBlock → ∀ b, (s.standing b).1 = 0 ↔
    ∀ m, C.epoch.startBlock ≤ m → m < n → ¬ C.Signed m b

theorem Counters.of_same {t : StateDB} (h : C.Counters n s)
    (hsame : ∀ a, (t.accounts a).blockTime = (s.accounts a).blockTime) : C.Counters n t := by
  have hcounter : ∀ b, (t.standing b).1 = (s.standing b).1 := hsame
  exact ⟨fun b hb => (hcounter b).trans (h.others b hb), fun hn b => by
    rw [hcounter b]
    exact h.counted hn b⟩

/-- Only validators have something to lose. -/
theorem Counters.finalised (h : C.Counters n s) (hkeeps : C.KeepsValidators s) :
    C.Counters n s.finalised := by
  refine h.of_same C fun a => ?_
  show (if s.deletes a then Account.absent else s.accounts a).blockTime = _
  split
  · rename_i hdeletes
    refine (h.others a fun hmem => ?_).symm
    obtain ⟨v, hv, rfl⟩ := List.mem_map.1 hmem
    rw [hkeeps v hv] at hdeletes
    cases hdeletes
  · rfl

end AcceptedEpoch

/-! ## An epoch with one validator -/

namespace Stray

/-- The epoch of blocks 2 to 101. -/
def hundred : Epoch := { epoch with startBlock := 2, endBlock := 101 }

/-- Every header carries the same commit. -/
def headerAt : Nat → Header
  | 0 => genesis
  | n + 1 =>
    { genesis with parentHash := (headerAt n).hash .toy, number := some (n + 1), extra := [0] }

def later : Backend := { node with epochs := [hundred] }

theorem headerAt_numberU64 (hn : n ≤ 101) : (headerAt n).numberU64 = n := by
  cases n with
  | zero => rfl
  | succ n => exact Nat.mod_eq_of_lt (show n + 1 < 2 ^ 64 by omega)

theorem later_epochAt (hpos : 2 ≤ n) (hn : n ≤ 101) : later.epochAt n = .ok (some hundred) := by
  have hcovers : hundred.covers n = true := by
    simp [Epoch.covers, hundred, hpos, hn]
  have hwait : later.waitForEpoch n = .ok hundred := by
    simp [Backend.waitForEpoch, later, hundred, hn]
  rw [Backend.epochAt, hwait]
  show Epoch.getEpochByBlockNumber _ hundred n = _
  rw [Epoch.getEpochByBlockNumber, if_pos hcovers]

theorem later_accepts (hpos : 2 ≤ n) (hn : n ≤ 101) :
    later.Accepts [headerAt (n - 1)] (headerAt n) := by
  have hnumber := headerAt_numberU64 hn
  obtain ⟨-, -, hform, -, ⟨extra, _, hextra, hep, hverified⟩, hmain⟩ :=
    (Backend.accepts_iff (by decide)).1 accepts_header
  have hep' : node.epochAt (header [1] [1]).numberU64 = .ok (some epoch) := by decide +kernel
  cases hep'.symm.trans hep
  obtain ⟨m, rfl⟩ : ∃ m, n = m + 1 := ⟨n - 1, by omega⟩
  refine (Backend.accepts_iff (by omega)).2 ⟨rfl, rfl, hform, ⟨headerAt m, rfl, ?_, ?_, rfl⟩,
    ⟨extra, hundred, hextra, by rw [hnumber, later_epochAt hpos hn], hverified⟩, hmain⟩
  · cases m <;> rfl
  · rw [hnumber, headerAt_numberU64 (by omega), prevU64]
    omega

/-- The epoch with these headers. -/
def accepted : AcceptedEpoch where
  lib := node.lib
  epoch := hundred
  header := headerAt
  node := fun _ => later
  parents := fun n => [headerAt (n - 1)]
  two_le := le_rfl
  long := le_rfl
  endBlock_lt := by decide
  lib_eq := fun _ => rfl
  number := fun _ hn => headerAt_numberU64 hn
  epochAt := fun _ hpos hn => later_epochAt hpos hn
  accepts := fun _ hpos hn => later_accepts hpos hn

/-- The only validator signs every block. -/
theorem signed (hpos : 0 < n) : accepted.Signed n [1] := by
  obtain ⟨m, rfl⟩ : ∃ m, n = m + 1 := ⟨n - 1, by omega⟩
  exact ⟨0, rfl, ⟨[1], [1], 10, 0⟩, rfl, rfl⟩

/-- There are no accounts. -/
def Deserted (s : StateDB) : Prop := s.amounts = 0 ∧ ∀ a, s.accounts a = .absent

/-- An account with nothing but a counter does not last. -/
theorem Deserted.counted (h : Deserted s) (a : Address) :
    Deserted (s.countMinedBlock a).finalised := by
  rw [StateDB.countMinedBlock_eq]
  refine ⟨DFinsupp.ext fun k => ?_, fun b => ?_⟩
  · rw [StateDB.finalised_amounts]
    show (if _ then s.amounts k else 0) = 0
    rw [h.1]
    split <;> rfl
  · simp only [StateDB.finalised]
    by_cases hb : b = a
    · subst hb
      refine if_pos ?_
      have hempty : s.empty b = true := by
        rw [StateDB.empty, h.1, h.2]
        rfl
      simp only [StateDB.empty, StateDB.deletes] at hempty ⊢
      simpa using hempty
    · simp only [Function.update_of_ne hb, h.2, ite_self]

end Stray

end NeatPoS
