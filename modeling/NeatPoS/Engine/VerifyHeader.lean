import NeatPoS.Epoch.Lookup

/-!
# Header verification

`backend.verifyHeader` (`consensus/neatpos/engine.go`), with `verifyCascadingFields` and
`verifyCommittedSeals`.

A header is accepted on the strength of the commit inside its extra data, so one would like a commit
to vouch for one header.  It does not, and there are three links missing.

* `Header.Hash` covers everything but the extra data, the aggregate signature covers a `BlockID`,
  and nothing compares the two.  Whatever `verifyHeader` does not look at, the roots and the
  coinbase among it, may be replaced in an accepted header (`verifyHeader_congr`).
* The chain id that enters the signed bytes is the one in the extra data, and it is not compared
  with the chain's own.
* The height of the commit is compared with the height in the extra data, and neither of them with
  the number of the header.

`commit_binds_nothing` puts the three together: there is no accepted header for which the commit
settles the hash, the chain or the height.

Two of the loops wait for something to happen elsewhere.  What they find at each look is part of the
node's record (`Backend`), and waiting in vain is a result of its own, `Halt.forever`.
-/

set_option autoImplicit false

namespace NeatPoS

/-- Why `verifyHeader` refuses a header. -/
inductive VerifyError where
  | form (e : HeaderError)
  | invalidExtraDataFormat
  | unknownAncestor
  | inconsistentValidatorSet
  | invalidCommittedSeals
  | invalidSignature
  | invalidMainChainNumber
  | mainChainNotCatchup
deriving DecidableEq, Repr

/-- What the engine reads of its node while it verifies a header. -/
structure Backend where
  lib : Neatlib
  keccak : Keccak
  /-- `chainConfig.NeatChainId` -/
  neatChainId : String
  /-- `GetEpoch`, look by look; the last one stays.  Nil before the consensus state is set up. -/
  epochs : List Epoch
  /-- `loadOneEpoch`, on the epoch database. -/
  loadOneEpoch : Nat → Option Epoch
  /-- `ChainReader.GetHeader` -/
  getHeader : Bytes → Nat → Option Header
  /-- `GetHeightFromMainChain`, look by look. -/
  heightFromMainChain : Nat → Nat

/-- `ExtractNeatconExtra`; `none` is an error. -/
def extractNeatconExtra (lib : Neatlib) (h : Header) : Option NeatconExtra :=
  if h.extra.isEmpty then some .zero else lib.readExtra h.extra

/-- The low 64 bits of the number of a header; a nil number reads as zero. -/
def Header.numberU64 (h : Header) : Nat := h.number.getD 0 % 2 ^ 64

namespace Backend

/-- The wait for the epoch switch: the first epoch seen that does not end before the block. -/
def waitForEpoch (sb : Backend) (number : Nat) : Except Halt Epoch :=
  match sb.epochs with
  | [] => .error (.panic .nilDereference)
  | first :: later =>
    match (first :: later).find? (fun e => decide (number ≤ e.endBlock)) with
    | none => .error .forever
    | some e => .ok e

/-- `verifyCommittedSeals`; `none` is success. -/
def verifyCommittedSeals (sb : Backend) (epoch : Epoch) (h : Header) :
    Except Halt (Option VerifyError) := do
  match extractNeatconExtra sb.lib h with
  | none => return some .invalidExtraDataFormat
  | some ncExtra =>
    match ← Epoch.getEpochByBlockNumber sb.loadOneEpoch epoch h.numberU64 with
    | none => return some .inconsistentValidatorSet
    | some epoch =>
      let valSet := epoch.validators
      if valSet.hash sb.lib ≠ ncExtra.validatorsHash then
        return some .inconsistentValidatorSet
      match ncExtra.seenCommit with
      | none => throw (.panic .nilDereference)
      | some seenCommit =>
        if ncExtra.seenCommitHash ≠ sb.lib.commitHash seenCommit then
          return some .invalidCommittedSeals
        match valSet.verifyCommit sb.lib ncExtra.chainID ncExtra.height (some seenCommit) with
        | .error p => throw (.panic p)
        | .ok (some _) => return some .invalidSignature
        | .ok none => return none

/-- The parent of a header: the last of the batch, or what the chain stores. -/
def parentOf (sb : Backend) (h : Header) (parents : List Header) : Option Header :=
  if parents.isEmpty then sb.getHeader h.parentHash (prevU64 h.numberU64) else parents.getLast?

/-- `verifyCascadingFields`; `none` is success. -/
def verifyCascadingFields (sb : Backend) (epoch : Epoch) (h : Header) (parents : List Header) :
    Except Halt (Option VerifyError) :=
  if h.numberU64 = 0 then .ok none
  else match sb.parentOf h parents with
    | none => .ok (some .unknownAncestor)
    | some parent =>
      if parent.number.isNone then .error (.panic .nilDereference)
      else if parent.numberU64 ≠ prevU64 h.numberU64 ∨ parent.hash sb.keccak ≠ h.parentHash then
        .ok (some .unknownAncestor)
      else sb.verifyCommittedSeals epoch h

/-- The last check of `verifyHeader`, for side chains: the node looks eleven times whether its main
chain has caught up. -/
def verifyMainChainNumber (sb : Backend) (h : Header) : Option VerifyError :=
  if isMainChain sb.neatChainId then none
  else match h.mainChainNumber with
    | none => some .invalidMainChainNumber
    | some n =>
      if (List.range 11).any (fun i => decide (n ≤ sb.heightFromMainChain i)) then none
      else some .mainChainNotCatchup

/-- `verifyHeader`; `none` is success. -/
def verifyHeader (sb : Backend) (h : Header) (parents : List Header) :
    Except Halt (Option VerifyError) := do
  if h.number.isNone then
    return some (.form .unknownBlock)
  -- the time is only compared to log a warning
  if h.time.isNone then
    throw (.panic .nilDereference)
  if (extractNeatconExtra sb.lib h).isNone then
    return some .invalidExtraDataFormat
  match verifyHeaderForm sb.keccak h with
  | some e => return some (.form e)
  | none =>
    let epoch ← sb.waitForEpoch h.numberU64
    match ← sb.verifyCascadingFields epoch h parents with
    | some e => return some e
    | none => return sb.verifyMainChainNumber h

/-- `verifyHeader` returns nil. -/
def Accepts (sb : Backend) (parents : List Header) (h : Header) : Prop :=
  sb.verifyHeader h parents = .ok none

instance (sb : Backend) (parents : List Header) (h : Header) :
    Decidable (sb.Accepts parents h) :=
  inferInstanceAs (Decidable (_ = _))

/-! ## What an accepted header is worth -/

/-- The epoch whose validators the commit of block `n` is checked against. -/
def epochAt (sb : Backend) (n : Nat) : Except Halt (Option Epoch) := do
  let epoch ← sb.waitForEpoch n
  Epoch.getEpochByBlockNumber sb.loadOneEpoch epoch n

/-- The validators have signed the commit inside the extra data, in the words of the extra data. -/
def CommitVerified (lib : Neatlib) (vs : ValidatorSet) (ncExtra : NeatconExtra) : Prop :=
  vs.hash lib = ncExtra.validatorsHash ∧
    ∃ c, ncExtra.seenCommit = some c ∧ ncExtra.seenCommitHash = lib.commitHash c ∧
      vs.verifyCommit lib ncExtra.chainID ncExtra.height (some c) = .ok none

/-- The header names its parent, by number and by hash. -/
def KnowsParent (sb : Backend) (parents : List Header) (h : Header) : Prop :=
  ∃ parent, sb.parentOf h parents = some parent ∧ parent.number.isSome ∧
    parent.numberU64 = prevU64 h.numberU64 ∧ parent.hash sb.keccak = h.parentHash

variable {h : Header} {sb : Backend}

theorem verifyCommittedSeals_eq_ok_none {epoch : Epoch} :
    sb.verifyCommittedSeals epoch h = .ok none ↔
      ∃ ncExtra ep, extractNeatconExtra sb.lib h = some ncExtra ∧
        Epoch.getEpochByBlockNumber sb.loadOneEpoch epoch h.numberU64 = .ok (some ep) ∧
        CommitVerified sb.lib ep.validators ncExtra := by
  rw [verifyCommittedSeals]
  cases hextra : extractNeatconExtra sb.lib h with
  | none => simp [pure, Except.pure]
  | some ncExtra =>
    cases hep : Epoch.getEpochByBlockNumber sb.loadOneEpoch epoch h.numberU64 with
    | error => simp [bind, Except.bind]
    | ok found =>
      cases found with
      | none => simp [bind, Except.bind, pure, Except.pure]
      | some ep =>
        by_cases hvals : ep.validators.hash sb.lib = ncExtra.validatorsHash
        · cases hcommit : ncExtra.seenCommit with
          | none => simp [bind, Except.bind, throw, throwThe, MonadExceptOf.throw, CommitVerified,
              hvals, hcommit]
          | some c =>
            by_cases hhash : ncExtra.seenCommitHash = sb.lib.commitHash c
            · cases hver : ep.validators.verifyCommit sb.lib ncExtra.chainID ncExtra.height
                  (some c) with
              | error p => simp [bind, Except.bind, throw, throwThe, MonadExceptOf.throw,
                  CommitVerified, hvals, hcommit, hhash, hver]
              | ok e => cases e <;> simp [bind, Except.bind, pure, Except.pure, CommitVerified,
                  hvals, hcommit, hhash, hver]
            · simp [bind, Except.bind, pure, Except.pure, CommitVerified, hvals, hcommit, hhash]
        · simp [bind, Except.bind, pure, Except.pure, CommitVerified, hvals]

theorem verifyCascadingFields_eq_ok_none {epoch : Epoch} {parents : List Header}
    (h0 : h.numberU64 ≠ 0) :
    sb.verifyCascadingFields epoch h parents = .ok none ↔
      sb.KnowsParent parents h ∧ sb.verifyCommittedSeals epoch h = .ok none := by
  rw [verifyCascadingFields, if_neg h0, KnowsParent]
  cases hparent : sb.parentOf h parents with
  | none => simp
  | some parent =>
    by_cases hnil : parent.number.isNone
    · have hnum : ¬ parent.number.isSome := by simpa using hnil
      simp [hnil, hnum]
    have hnum : parent.number.isSome := by simpa [Option.isSome_iff_ne_none] using hnil
    by_cases hlink : parent.numberU64 = prevU64 h.numberU64 ∧
      parent.hash sb.keccak = h.parentHash
    · simp [hnil, hnum, hlink.1, hlink.2]
    have hbad : parent.numberU64 ≠ prevU64 h.numberU64 ∨
        parent.hash sb.keccak ≠ h.parentHash := by
      rw [← not_and_or]
      exact hlink
    simp [hnil, hbad, hlink]

/-- **What an accepted header is worth.**  Past the genesis block, a header is accepted exactly when
it has the form of a header of this engine, continues its parent, and the commit inside its extra
data is verified in the words of the extra data. -/
theorem accepts_iff {parents : List Header} (h0 : h.numberU64 ≠ 0) :
    sb.Accepts parents h ↔
      h.number.isSome ∧ h.time.isSome ∧ verifyHeaderForm sb.keccak h = none ∧
      sb.KnowsParent parents h ∧
      (∃ ncExtra ep, extractNeatconExtra sb.lib h = some ncExtra ∧
        sb.epochAt h.numberU64 = .ok (some ep) ∧ CommitVerified sb.lib ep.validators ncExtra) ∧
      sb.verifyMainChainNumber h = none := by
  rw [Accepts, verifyHeader]
  cases hnum : h.number with
  | none => simp [pure, Except.pure]
  | some =>
    cases htime : h.time with
    | none => simp [bind, Except.bind, throw, throwThe, MonadExceptOf.throw]
    | some =>
      cases hextra : extractNeatconExtra sb.lib h with
      | none => simp [pure, Except.pure]
      | some =>
        cases hform : verifyHeaderForm sb.keccak h with
        | some => simp [pure, Except.pure]
        | none =>
          simp only [epochAt]
          cases hwait : sb.waitForEpoch h.numberU64 with
          | error => simp [bind, Except.bind]
          | ok epoch =>
            have hfields : sb.verifyCascadingFields epoch h parents = .ok none ↔ _ :=
              verifyCascadingFields_eq_ok_none h0
            rw [verifyCommittedSeals_eq_ok_none, hextra] at hfields
            have hmain : (do
                match ← sb.verifyCascadingFields epoch h parents with
                | some e => return some e
                | none => return sb.verifyMainChainNumber h : Except Halt (Option VerifyError)) =
                .ok none ↔ sb.verifyCascadingFields epoch h parents = .ok none ∧
                  sb.verifyMainChainNumber h = none := by
              cases sb.verifyCascadingFields epoch h parents with
              | error => simp [bind, Except.bind]
              | ok found => cases found <;> simp [bind, Except.bind, pure, Except.pure]
            rw [hfields] at hmain
            have hok {β : Type} (f : Epoch → Except Halt β) :
                ((Except.ok epoch : Except Halt Epoch) >>= f) = f epoch := rfl
            simpa [and_assoc, hok] using hmain

/-! ## What the commit leaves open -/

/-- The fields of a header that verification does not look at. -/
theorem verifyHeader_congr (sb : Backend) (parents : List Header) (h : Header)
    (coinbase root txHash receiptHash bloom : Bytes) (gasLimit gasUsed : Nat) :
    sb.verifyHeader { h with coinbase, root, txHash, receiptHash, bloom, gasLimit, gasUsed }
      parents = sb.verifyHeader h parents :=
  rfl

/-- The commit of `h` binds its block: an accepted header of the same number and parent that carries
the same seen commit has the same hash. -/
def CommitBinds (sb : Backend) (parents : List Header) (h : Header) : Prop :=
  ∀ h', sb.Accepts parents h' → h'.number = h.number → h'.parentHash = h.parentHash →
    (extractNeatconExtra sb.lib h').map (·.seenCommit) =
      (extractNeatconExtra sb.lib h).map (·.seenCommit) →
    h'.hash sb.keccak = h.hash sb.keccak

/-- Any header of this engine can be given another amount of gas, and then has another hash. -/
theorem exists_other_hash {k : Keccak} (hk : k.CollisionFree) (hd : h.mixDigest = neatconDigest) :
    ∃ gasUsed, { h with gasUsed }.hash k ≠ h.hash k := by
  refine ⟨if h.gasUsed = 0 then 1 else 0, ?_⟩
  rw [Header.hash, if_pos hd, Header.hash, if_pos hd]
  intro heq
  have hgas := congrArg Header.gasUsed (hk _ _ heq)
  simp only [Header.rlpFields, Header.copyHeader, Header.neatconFilteredHeader] at hgas
  split at hgas <;> omega

theorem mixDigest_of_verifyHeaderForm {k : Keccak}
    (hform : verifyHeaderForm k h = none) : h.mixDigest = neatconDigest := by
  by_contra hd
  rw [verifyHeaderForm, if_pos hd] at hform
  split at hform <;> simp at hform

/-- There is another chain of the same kind. -/
theorem exists_other_chain (id : String) : ∃ id', id' ≠ id ∧ isMainChain id' = isMainChain id := by
  by_cases hneatio : id = "neatio"
  · exact ⟨"testnet", by rw [hneatio]; decide, by rw [hneatio]; decide⟩
  by_cases htestnet : id = "testnet"
  · exact ⟨"neatio", by rw [htestnet]; decide, by rw [htestnet]; decide⟩
  · have hside : isMainChain id = false := by simp [isMainChain, hneatio, htestnet]
    by_cases hfirst : id = "side_0"
    · exact ⟨"side_1", by rw [hfirst]; decide, by rw [hfirst]; decide⟩
    · exact ⟨"side_0", Ne.symm hfirst, by rw [hside]; decide⟩

/-- **A commit binds nothing.**  For every accepted header there is another one with the same
number, parent and extra data and a different hash; a chain of another id accepts it as well; and
its commit is accepted at every other height that has the same validators, on whatever parent. -/
theorem commit_binds_nothing {sb : Backend} {parents : List Header} {h : Header}
    (hk : sb.keccak.CollisionFree) (h0 : h.numberU64 ≠ 0) (ha : sb.Accepts parents h) :
    ¬ sb.CommitBinds parents h ∧
    (∃ id, id ≠ sb.neatChainId ∧ { sb with neatChainId := id }.Accepts parents h) ∧
    ∀ (p : Header) (n : Nat), p.number = some n → n + 1 < 2 ^ 64 →
      sb.epochAt (n + 1) = sb.epochAt h.numberU64 →
      sb.Accepts [p] { h with number := some (n + 1), parentHash := p.hash sb.keccak } := by
  obtain ⟨hnum, htime, hform, hparent, hcommit, hmain⟩ := (accepts_iff h0).1 ha
  refine ⟨?_, ?_, ?_⟩
  · intro hbinds
    obtain ⟨gasUsed, hne⟩ := exists_other_hash hk (mixDigest_of_verifyHeaderForm hform)
    exact hne (hbinds { h with gasUsed } ha rfl rfl rfl)
  · obtain ⟨id, hne, hkind⟩ := exists_other_chain sb.neatChainId
    refine ⟨id, hne, (accepts_iff h0).2 ⟨hnum, htime, hform, hparent, hcommit, ?_⟩⟩
    rw [verifyMainChainNumber] at hmain ⊢
    rwa [hkind]
  · intro p n hp hn hepoch
    have hnumber : { h with number := some (n + 1), parentHash := p.hash sb.keccak }.numberU64 =
        n + 1 := Nat.mod_eq_of_lt hn
    refine (accepts_iff (by omega)).2 ⟨rfl, htime, hform, ?_, ?_, hmain⟩
    · refine ⟨p, rfl, by rw [hp]; rfl, ?_, rfl⟩
      rw [hnumber, Header.numberU64, hp, prevU64, Option.getD_some]
      omega
    · rw [hnumber, hepoch]
      exact hcommit

end Backend

/-! ## A commit from elsewhere -/

namespace Stray

/-- A block of the chain `other`, at height 5. -/
def blockID : BlockID := ⟨[7], ⟨1, [7]⟩⟩

/-- The commit of the only validator for that block. -/
def commit : Commit where
  blockID := blockID
  height := 5
  round := 0
  signAggr := 1 :: ValidatorSet.loneLib.voteSignBytes ⟨"other", blockID, 5, 0, .precommit⟩
  bitArray := some [true]

/-- The extra data around it. -/
def ncExtra : NeatconExtra :=
  { NeatconExtra.zero with
    chainID := "other"
    height := 5
    validatorsHash := [1]
    seenCommitHash := ValidatorSet.loneLib.commitHash commit
    seenCommit := some commit }

/-- An epoch of a hundred blocks. -/
def epoch : Epoch := ⟨0, 0, 0, 99, 0, 0, 0, 0, ⟨[⟨[1], [1], 10, 0⟩]⟩⟩

/-- A node of the main chain. -/
def node : Backend where
  lib := { ValidatorSet.loneLib with readExtra := fun _ => some ncExtra }
  keccak := .toy
  neatChainId := "neatio"
  epochs := [epoch]
  loadOneEpoch := fun _ => none
  getHeader := fun _ _ => none
  heightFromMainChain := fun _ => 0

/-- The genesis header. -/
def genesis : Header :=
  ⟨[], [], [], [], [], [], [], some 1, some 0, 0, 0, some 0, [], neatconDigest, neatconEmptyNonce,
    none⟩

/-- A header of block 1 with the given state root and coinbase, carrying the foreign commit. -/
def header (root coinbase : Bytes) : Header :=
  { genesis with
    parentHash := genesis.hash .toy, number := some 1, extra := [0], root, coinbase }

theorem accepts_header : node.Accepts [genesis] (header [1] [1]) := by
  decide +kernel

/-- The commit of the foreign chain opens block 1 of this one, and then every block up to the end of
the epoch. -/
theorem commit_binds_nothing_header :
    ¬ node.CommitBinds [genesis] (header [1] [1]) ∧
    (∃ id, id ≠ node.neatChainId ∧
      { node with neatChainId := id }.Accepts [genesis] (header [1] [1])) ∧
    ∀ (p : Header) (n : Nat), p.number = some n → n + 1 < 2 ^ 64 →
      node.epochAt (n + 1) = node.epochAt (header [1] [1]).numberU64 →
      node.Accepts [p]
        { header [1] [1] with number := some (n + 1), parentHash := p.hash node.keccak } :=
  Backend.commit_binds_nothing Keccak.toy_collisionFree (by decide) accepts_header

/-- Two headers with one commit: they differ in state root and coinbase, and the commit is of
another chain and height than both. -/
theorem two_headers_one_commit :
    ¬ ∀ (sb : Backend) (parents : List Header) (h h' : Header), sb.keccak.CollisionFree →
      sb.Accepts parents h → sb.Accepts parents h' → h'.number = h.number →
      h'.parentHash = h.parentHash →
      (extractNeatconExtra sb.lib h').map (·.seenCommit) =
        (extractNeatconExtra sb.lib h).map (·.seenCommit) →
      h'.hash sb.keccak = h.hash sb.keccak := by
  intro hbinds
  have hother : node.Accepts [genesis] (header [2] [2]) := by decide +kernel
  have heq := hbinds node [genesis] (header [1] [1]) (header [2] [2]) Keccak.toy_collisionFree
    accepts_header hother rfl rfl rfl
  have hne : (header [2] [2]).hash node.keccak ≠ (header [1] [1]).hash node.keccak := by
    decide +kernel
  exact hne heq

end Stray

end NeatPoS
