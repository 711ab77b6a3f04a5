import NeatPoS.Engine.VerifyHeader

/-!
# The epochs of side chains, as the main chain records them

`cmd/neatio/cross_chain.go` and `core/chains_info.go`.  A side chain reports its headers to the main
chain.  `VerifySideChainProofData` decides whether a header is believed, and
`SaveSideChainProofDataToMainChain` takes the epoch out of a header that is and files it, so that
later headers are checked against the validators of that epoch.

* `ChainInfoDB` is what is filed: for each side chain the number of its epoch and the epochs
  themselves.  `recordedEpoch` is the one that a header of some height is checked against.
* `verifySideChainProofData_eq_ok_none` says what it takes to be believed.  There are two ways
  around the commit: an epoch of number 0, and the chain `side_0` (`Exempt`).
* `saves_iff` says when the record changes.
* `epochSound_iff` puts the two together.  The record changes on the word of its own validators
  exactly if no exempt header changes it that would not have passed the check; and for the word to
  be about this header, its commit must name the consensus data of the header, which nothing looks
  at.

That a commit is *signed* is meant as in `ValidatorSet.AggregateSound`: whatever BLS verification
says about who has signed, the validators that the commit lists have.
-/

set_option autoImplicit false

namespace NeatPoS

open Quorum

variable {bs : Bytes} {h : Header} {te : NeatconExtra} {ep : Epoch}

/-! ## The chain info database -/

/-- The records of the side chains.  `CoreChainInfo` is filed under its `ChainId`, and of its fields
only `EpochNumber` is read here; an epoch is filed under its number and the id of its chain, and
wire-go reads what it has written. -/
structure ChainInfoDB where
  epochNumber : String → Option Nat
  loadEpoch : Nat → String → Option Epoch

/-- `core.ChainInfo`. -/
structure ChainInfo where
  chainId : String
  epochNumber : Nat
  epoch : Option Epoch

namespace ChainInfoDB

/-- `GetChainInfo`. -/
def getChainInfo (db : ChainInfoDB) (chainId : String) : Option ChainInfo :=
  (db.epochNumber chainId).map fun number => ⟨chainId, number, db.loadEpoch number chainId⟩

/-- `saveEpoch`, which is also all of `SaveFutureEpoch`. -/
def saveEpoch (db : ChainInfoDB) (ep : Epoch) (chainId : String) : ChainInfoDB :=
  { db with
    loadEpoch := fun number id =>
      if number = ep.number ∧ id = chainId then some ep else db.loadEpoch number id }

/-- `SaveChainInfo`.  The list of all chain ids, which it also writes, is not read here. -/
def saveChainInfo (db : ChainInfoDB) (ci : ChainInfo) : ChainInfoDB :=
  let db :=
    { db with
      epochNumber := Function.update db.epochNumber ci.chainId (some ci.epochNumber) }
  match ci.epoch with
  | none => db
  | some ep => db.saveEpoch ep ci.chainId

/-- The loop of `ChainInfo.GetEpochByBlockNumber` over the history. -/
def historyEpoch (db : ChainInfoDB) (chainId : String) (blockNumber : Nat) : Nat → Option Epoch
  | 0 => none
  | number + 1 =>
    match db.loadEpoch number chainId with
    | none => none
    | some ep =>
      if ep.covers blockNumber then some ep else db.historyEpoch chainId blockNumber number

/-- `ChainInfo.GetEpochByBlockNumber`. -/
def getEpochByBlockNumber (db : ChainInfoDB) (ci : ChainInfo) (blockNumber : Nat) : Option Epoch :=
  match ci.epoch with
  | none => none
  | some epoch =>
    if epoch.covers blockNumber then some epoch
    else if blockNumber > epoch.endBlock then
      db.loadEpoch ((epoch.number + 1) % 2 ^ 64) ci.chainId
    else db.historyEpoch ci.chainId blockNumber epoch.number

/-- The epoch that is recorded for a block of a side chain. -/
def recordedEpoch (db : ChainInfoDB) (chainId : String) (blockNumber : Nat) : Option Epoch :=
  (db.getChainInfo chainId).bind fun ci => db.getEpochByBlockNumber ci blockNumber

/-- All that is recorded about the epochs of a side chain. -/
def recorded (db : ChainInfoDB) (chainId : String) : Option Nat × (Nat → Option Epoch) :=
  (db.epochNumber chainId, fun number => db.loadEpoch number chainId)

/-- One side chain, which is in epoch 3 and has one validator. -/
def sideOne : ChainInfoDB where
  epochNumber := fun id => if id = "side_1" then some 3 else none
  loadEpoch := fun number id =>
    if number = 3 ∧ id = "side_1" then
      some ⟨3, 0, 300, 399, 0, 0, 0, 0, ⟨[⟨[1], [1], 10, 0⟩]⟩⟩
    else none

end ChainInfoDB

/-! ## Verifying and saving -/

/-- Why proof data are refused. -/
inductive ProofDataError where
  /-- The error of `rlp.DecodeBytes`. -/
  | undecodable
  /-- The error of `ExtractNeatconExtra`. -/
  | invalidExtraDataFormat
  /-- `invalid side chain id: %s` -/
  | invalidSideChainId (chainId : String)
  /-- `invalid nonce`, `invalid mix digest`, `invalid uncle Hash`, `invalid difficulty` -/
  | form (e : HeaderError)
  /-- `chain info %s not found` -/
  | chainInfoNotFound (chainId : String)
  /-- `could not get epoch for block height %v` -/
  | noEpoch (height : Nat)
  /-- `inconsistent validator set` -/
  | inconsistentValidatorSet
  /-- `invalid committed seals` -/
  | invalidCommittedSeals
  /-- The error of `VerifyCommit`. -/
  | commit (e : CommitError)
  /-- The error of `trie.VerifyProof`. -/
  | invalidProof
deriving DecidableEq, Repr

/-- What `CrossChainHelper` takes from elsewhere to look at a header. -/
structure CrossChainHelper where
  lib : Neatlib
  keccak : Keccak
  /-- `rlp.DecodeBytes`, into a `SideChainProofData`, which is a header. -/
  decodeProofData : Bytes → Option Header
  /-- wire-go: `ReadBinaryBytes` of an epoch. -/
  readEpoch : Bytes → Option Epoch

namespace CrossChainHelper

variable (cch : CrossChainHelper) (db : ChainInfoDB)

/-- `epoch.FromBytes` of the epoch in the extra data. -/
def epochFromBytes (te : NeatconExtra) : Option Epoch :=
  if te.epochBytes.isEmpty then none else cch.readEpoch te.epochBytes

/-- What `VerifySideChainProofData` and `ValidateTX3ProofData` check first: the extra data, or an
error. -/
def checkHeader (h : Header) : Except Panic (Except ProofDataError NeatconExtra) :=
  -- the time is compared to no effect
  if h.time.isNone then .error .nilDereference
  else match extractNeatconExtra cch.lib h with
    | none => .ok (.error .invalidExtraDataFormat)
    | some te =>
      if te.chainID = "" ∨ isMainChain te.chainID then
        .ok (.error (.invalidSideChainId te.chainID))
      else match verifyHeaderForm cch.keccak h with
        | some e => .ok (.error (.form e))
        | none => .ok (.ok te)

/-- The special case of both: the header brings epoch 0. -/
def bringsEpochZero (te : NeatconExtra) : Bool :=
  match cch.epochFromBytes te with
  | none => false
  | some ep => ep.number == 0

/-- What both check last: the commit, against the validators that are recorded. -/
def checkCommit (te : NeatconExtra) : Except Panic (Option ProofDataError) :=
  match db.getChainInfo te.chainID with
  | none => .ok (some (.chainInfoNotFound te.chainID))
  | some ci =>
    match db.getEpochByBlockNumber ci te.height with
    | none => .ok (some (.noEpoch te.height))
    | some epoch =>
      let valSet := epoch.validators
      if valSet.hash cch.lib ≠ te.validatorsHash then .ok (some .inconsistentValidatorSet)
      else match te.seenCommit with
        | none => .error .nilDereference
        | some seenCommit =>
          if te.seenCommitHash ≠ cch.lib.commitHash seenCommit then
            .ok (some .invalidCommittedSeals)
          else match valSet.verifyCommit cch.lib te.chainID te.height (some seenCommit) with
            | .error p => .error p
            | .ok (some e) => .ok (some (.commit e))
            | .ok none => .ok none

/-- `VerifySideChainProofData`; `none` is success. -/
def verifySideChainProofData (bs : Bytes) : Except Panic (Option ProofDataError) := do
  match cch.decodeProofData bs with
  | none => return some .undecodable
  | some header =>
    match ← cch.checkHeader header with
    | .error e => return some e
    | .ok te =>
      if cch.bringsEpochZero te then return none
      else if te.chainID ≠ "side_0" then cch.checkCommit db te
      else return none

/-- How an epoch is filed: a future one besides the current one, a new one in its place, and an old
one not at all. -/
def fileEpoch (ci : ChainInfo) (height : Nat) (ep : Epoch) : ChainInfoDB :=
  if ep.number > ci.epochNumber ∧ height < ep.startBlock then db.saveEpoch ep ci.chainId
  else if ep.number = 0 ∨ ep.number ≥ ci.epochNumber then
    db.saveChainInfo { ci with epochNumber := ep.number, epoch := some ep }
  else db

/-- `SaveSideChainProofDataToMainChain`: the error, and the database afterwards.  If the chain is
not recorded, the function waits until it is. -/
def saveSideChainProofDataToMainChain (bs : Bytes) :
    Except Halt (Option ProofDataError × ChainInfoDB) :=
  match cch.decodeProofData bs with
  | none => .ok (some .undecodable, db)
  | some header =>
    match extractNeatconExtra cch.lib header with
    | none => .ok (some .invalidExtraDataFormat, db)
    | some te =>
      if te.chainID = "" ∨ isMainChain te.chainID then
        .ok (some (.invalidSideChainId te.chainID), db)
      else match cch.epochFromBytes te with
        | none => .ok (none, db)
        | some ep =>
          match db.getChainInfo te.chainID with
          | none => .error .forever
          | some ci => .ok (none, fileEpoch db ci te.height ep)

/-! ## What is believed -/

/-- The proof data are a header of a side chain, in the form that this engine gives to headers. -/
structure Reads (bs : Bytes) (h : Header) (te : NeatconExtra) : Prop where
  decoded : cch.decodeProofData bs = some h
  time : h.time.isSome
  extra : extractNeatconExtra cch.lib h = some te
  chainID : ¬ (te.chainID = "" ∨ isMainChain te.chainID)
  form : verifyHeaderForm cch.keccak h = none

/-- The commit of the header is not looked at. -/
def Exempt (te : NeatconExtra) : Prop := cch.bringsEpochZero te = true ∨ te.chainID = "side_0"

/-- The commit of the header has been verified against the epoch that is recorded. -/
def Verified (te : NeatconExtra) : Prop :=
  ∃ ep, db.recordedEpoch te.chainID te.height = some ep ∧
    Backend.CommitVerified cch.lib ep.validators te

variable {cch db}

theorem Reads.unique {h' : Header} {te' : NeatconExtra} (hr : cch.Reads bs h te)
    (hr' : cch.Reads bs h' te') : te = te' := by
  obtain rfl := Option.some.inj (hr.decoded.symm.trans hr'.decoded)
  exact Option.some.inj (hr.extra.symm.trans hr'.extra)

theorem checkHeader_eq_ok :
    cch.checkHeader h = .ok (.ok te) ↔ h.time.isSome ∧ extractNeatconExtra cch.lib h = some te ∧
      ¬ (te.chainID = "" ∨ isMainChain te.chainID) ∧ verifyHeaderForm cch.keccak h = none := by
  rw [checkHeader]
  cases htime : h.time with
  | none => simp
  | some =>
    cases hextra : extractNeatconExtra cch.lib h with
    | none => simp
    | some te' =>
      by_cases hid : te'.chainID = "" ∨ isMainChain te'.chainID
      · simp only [Option.isNone_some, Bool.false_eq_true, if_false, if_pos hid, Except.ok.injEq,
          reduceCtorEq, Option.isSome_some, Option.some.injEq, true_and, false_iff, not_and]
        rintro rfl hne
        exact absurd hid hne
      · cases hform : verifyHeaderForm cch.keccak h with
        | some => simp [hid]
        | none =>
          simp only [Option.isNone_some, Bool.false_eq_true, if_false, if_neg hid, Except.ok.injEq,
            Option.isSome_some, Option.some.injEq, true_and, and_true]
          constructor
          · rintro rfl
            exact ⟨rfl, hid⟩
          · exact fun h ↦ h.1

theorem checkCommit_eq_ok_none : cch.checkCommit db te = .ok none ↔ cch.Verified db te := by
  rw [checkCommit, Verified, ChainInfoDB.recordedEpoch]
  cases hci : db.getChainInfo te.chainID with
  | none => simp
  | some ci =>
    simp only [Option.bind_some]
    cases hep : db.getEpochByBlockNumber ci te.height with
    | none => simp
    | some ep =>
      simp only [Option.some.injEq, exists_eq_left', Backend.CommitVerified]
      by_cases hvals : ep.validators.hash cch.lib = te.validatorsHash
      · cases hcommit : te.seenCommit with
        | none => simp [hvals]
        | some c =>
          by_cases hhash : te.seenCommitHash = cch.lib.commitHash c
          · cases hver : ep.validators.verifyCommit cch.lib te.chainID te.height (some c) with
            | error => simp [hvals, hhash, hver]
            | ok e => cases e <;> simp [hvals, hhash, hver]
          · simp [hvals, hhash]
      · simp [hvals]

/-- **What is believed.**  A header of the right form, if its commit has been verified or is not
looked at. -/
theorem verifySideChainProofData_eq_ok_none :
    cch.verifySideChainProofData db bs = .ok none ↔
      ∃ h te, cch.Reads bs h te ∧ (cch.Exempt te ∨ cch.Verified db te) := by
  rw [verifySideChainProofData]
  constructor
  · intro hok
    cases hdec : cch.decodeProofData bs with
    | none => simp [hdec, pure, Except.pure] at hok
    | some h =>
      simp only [hdec] at hok
      rcases hcheck : cch.checkHeader h with _ | (_ | te)
      · simp [hcheck, bind, Except.bind] at hok
      · simp [hcheck, bind, Except.bind, pure, Except.pure] at hok
      obtain ⟨htime, hextra, hid, hform⟩ := checkHeader_eq_ok.1 hcheck
      refine ⟨h, te, ⟨hdec, htime, hextra, hid, hform⟩, ?_⟩
      by_cases hzero : cch.bringsEpochZero te = true
      · exact .inl (.inl hzero)
      by_cases hside : te.chainID = "side_0"
      · exact .inl (.inr hside)
      · right
        simp only [hcheck, bind, Except.bind, if_neg hzero, ne_eq, hside, not_false_eq_true,
          if_true] at hok
        exact checkCommit_eq_ok_none.1 hok
  · rintro ⟨h, te, hr, hgood⟩
    have hcheck := checkHeader_eq_ok.2 ⟨hr.time, hr.extra, hr.chainID, hr.form⟩
    simp only [hr.decoded, hcheck, bind, Except.bind]
    by_cases hzero : cch.bringsEpochZero te = true
    · rw [if_pos hzero]
      rfl
    rw [if_neg hzero]
    by_cases hside : te.chainID = "side_0"
    · rw [if_neg (not_not.2 hside)]
      rfl
    · rw [if_pos hside]
      exact checkCommit_eq_ok_none.2 (hgood.resolve_left fun hex ↦ hex.elim hzero hside)

/-! ## What is saved -/

/-- The epoch in the header is news: it is filed, and it was not there before. -/
def BringsNews (cch : CrossChainHelper) (db : ChainInfoDB) (te : NeatconExtra) : Prop :=
  ∃ ep number, cch.epochFromBytes te = some ep ∧ db.epochNumber te.chainID = some number ∧
    (if ep.number > number ∧ te.height < ep.startBlock then
      db.loadEpoch ep.number te.chainID ≠ some ep
    else (ep.number = 0 ∨ ep.number ≥ number) ∧
      (ep.number ≠ number ∨ db.loadEpoch ep.number te.chainID ≠ some ep))

theorem bringsNews_iff {number : Nat}
    (hep : cch.epochFromBytes te = some ep) (hnumber : db.epochNumber te.chainID = some number) :
    cch.BringsNews db te ↔
      if ep.number > number ∧ te.height < ep.startBlock then
        db.loadEpoch ep.number te.chainID ≠ some ep
      else (ep.number = 0 ∨ ep.number ≥ number) ∧
        (ep.number ≠ number ∨ db.loadEpoch ep.number te.chainID ≠ some ep) := by
  constructor
  · rintro ⟨_, _, hep', hnumber', hnews⟩
    obtain rfl := Option.some.inj (hep.symm.trans hep')
    obtain rfl := Option.some.inj (hnumber.symm.trans hnumber')
    exact hnews
  · exact fun hnews ↦ ⟨ep, number, hep, hnumber, hnews⟩

theorem recorded_saveEpoch_ne {chainId id : String} :
    (db.saveEpoch ep chainId).recorded id ≠ db.recorded id ↔
      id = chainId ∧ db.loadEpoch ep.number chainId ≠ some ep := by
  constructor
  · intro hne
    have hid : id = chainId := by
      by_contra hid
      refine hne ?_
      simp [ChainInfoDB.recorded, ChainInfoDB.saveEpoch, hid]
    refine ⟨hid, fun hsame ↦ hne ?_⟩
    subst hid
    simp only [ChainInfoDB.recorded, ChainInfoDB.saveEpoch, Prod.mk.injEq, true_and]
    funext number
    by_cases hn : number = ep.number
    · simp [hn, hsame]
    · simp [hn]
  · rintro ⟨rfl, hnew⟩ hsame
    have hload := congrFun (congrArg Prod.snd hsame) ep.number
    simp only [ChainInfoDB.recorded, ChainInfoDB.saveEpoch, and_self, if_true] at hload
    exact hnew hload.symm

theorem recorded_saveChainInfo_ne {chainId id : String} {number : Nat}
    (hnumber : db.epochNumber chainId = some number) :
    (db.saveChainInfo ⟨chainId, ep.number, some ep⟩).recorded id ≠ db.recorded id ↔
      id = chainId ∧ (ep.number ≠ number ∨ db.loadEpoch ep.number chainId ≠ some ep) := by
  by_cases hid : id = chainId
  · subst hid
    by_cases hn : ep.number = number
    · have hsave : (db.saveChainInfo ⟨id, ep.number, some ep⟩).recorded id =
          (db.saveEpoch ep id).recorded id := by
        simp [ChainInfoDB.recorded, ChainInfoDB.saveChainInfo, ChainInfoDB.saveEpoch, hnumber, hn]
      rw [hsave, recorded_saveEpoch_ne]
      simp [hn]
    · refine iff_of_true (fun hsame ↦ hn ?_) ⟨rfl, .inl hn⟩
      have hcore := congrArg Prod.fst hsame
      simpa [ChainInfoDB.recorded, ChainInfoDB.saveChainInfo, ChainInfoDB.saveEpoch, hnumber]
        using hcore
  · refine iff_of_false (not_not.2 ?_) fun h ↦ hid h.1
    simp [ChainInfoDB.recorded, ChainInfoDB.saveChainInfo, ChainInfoDB.saveEpoch, hid]

/-- **What is saved.**  Of a header that can be read, the record of one chain changes, that of the
header, and it does so if the header brings news. -/
theorem saves_iff (hr : cch.Reads bs h te) (id : String) :
    (∃ db', cch.saveSideChainProofDataToMainChain db bs = .ok (none, db') ∧
      db'.recorded id ≠ db.recorded id) ↔ id = te.chainID ∧ cch.BringsNews db te := by
  rw [saveSideChainProofDataToMainChain]
  simp only [hr.decoded, hr.extra, if_neg hr.chainID]
  cases hep : cch.epochFromBytes te with
  | none => simp [BringsNews, hep]
  | some ep =>
    cases hnumber : db.epochNumber te.chainID with
    | none => simp [ChainInfoDB.getChainInfo, BringsNews, hnumber]
    | some number =>
      simp only [ChainInfoDB.getChainInfo, hnumber, Option.map_some, Except.ok.injEq, Prod.mk.injEq,
        true_and, exists_eq_left', bringsNews_iff hep hnumber]
      rw [fileEpoch]
      by_cases hfuture : ep.number > number ∧ te.height < ep.startBlock
      · simp only [if_pos hfuture]
        exact recorded_saveEpoch_ne
      simp only [if_neg hfuture]
      by_cases hnew : ep.number = 0 ∨ ep.number ≥ number
      · simp only [if_pos hnew]
        rw [recorded_saveChainInfo_ne hnumber]
        simp only [hnew, true_and]
      · simp [hnew]

end CrossChainHelper

/-! ## On whose word -/

/-- The commit in the extra data is for their height, the validators that it lists reach the
threshold of its round, and they have all signed it. -/
def CommitSigned (lib : Neatlib) (vs : ValidatorSet) (te : NeatconExtra) : Prop :=
  ∃ c bits, te.seenCommit = some c ∧ c.height = te.height ∧ c.bitArray = some bits ∧
    vs.ReachesThreshold c.round bits ∧
    ∀ signed : Validator → Bytes → Prop,
      vs.AggregateSound lib signed c.bitArray (c.signBytes lib te.chainID) c.signAggr →
      ∀ (i : Nat) (v : Validator), bits[i]? = some true → vs.validators[i]? = some v →
        signed v (c.signBytes lib te.chainID)

/-- `VerifyCommit` accepts the commit in the extra data; or it lists nobody, in a round in which
nobody has to sign. -/
def CommitPasses (lib : Neatlib) (vs : ValidatorSet) (te : NeatconExtra) : Prop :=
  ∃ c, te.seenCommit = some c ∧
    (vs.verifyCommit lib te.chainID te.height (some c) = .ok none ∨
      c.height = te.height ∧ c.bitArray = some (List.replicate vs.size false) ∧
        vs.ReachesThreshold c.round (List.replicate vs.size false))

/-- The commit is for the consensus data of the header.  `finalizeCommit` may have set two of their
flags after the vote. -/
def CommitNames (lib : Neatlib) (te : NeatconExtra) : Prop :=
  ∃ c save broadcast, te.seenCommit = some c ∧
    NeatconExtra.hash lib { te with needToSave := save, needToBroadcast := broadcast } =
      c.blockID.hash

theorem commitSigned_iff {lib : Neatlib} {vs : ValidatorSet} :
    CommitSigned lib vs te ↔ CommitPasses lib vs te := by
  constructor
  · rintro ⟨c, bits, hc, hheight, hbits, hreach, hsigned⟩
    refine ⟨c, hc, ?_⟩
    obtain ⟨hne, hlen, hthr⟩ := ValidatorSet.reachesThreshold_iff.1 hreach
    by_cases hver : ∃ pk, vs.aggrPubKey lib c.bitArray = some pk ∧
        lib.verifyBytes pk (c.signBytes lib te.chainID) c.signAggr = true
    · obtain ⟨pk, hpk, hver⟩ := hver
      exact .inl (ValidatorSet.verifyCommit_eq_ok_none.2
        ⟨hne, hheight.symm, bits, pk, hbits, hlen, hpk, hver, hthr⟩)
    · -- if the aggregate does not verify, it is possible that nobody has signed
      have hnobody : bits = List.replicate vs.size false := by
        refine List.eq_replicate_iff.2 ⟨hlen, fun b hb ↦ ?_⟩
        by_contra htrue
        rw [Bool.not_eq_false] at htrue
        obtain ⟨i, hi, hget⟩ := List.getElem_of_mem hb
        have hv : i < vs.validators.length := by
          rw [ValidatorSet.size] at hlen
          omega
        exact hsigned (fun _ _ => False) (fun pk hpk hok ↦ absurd ⟨pk, hpk, hok⟩ hver) i
          vs.validators[i] (by rw [List.getElem?_eq_getElem hi, hget, htrue])
          (List.getElem?_eq_getElem hv)
      rw [hnobody] at hbits hreach
      exact .inr ⟨hheight, hbits, hreach⟩
  · rintro ⟨c, hc, hver | ⟨hheight, hbits, hreach⟩⟩
    · obtain ⟨hne, hheight, bits, pk, hbits, hlen, hpk, hok, hthr⟩ :=
        ValidatorSet.verifyCommit_eq_ok_none.1 hver
      refine ⟨c, bits, hc, hheight.symm, hbits,
        ValidatorSet.reachesThreshold_iff.2 ⟨hne, hlen, hthr⟩, fun signed hsound i v hi hv ↦ ?_⟩
      exact hsound pk hpk hok bits i v hbits hi hv
    · refine ⟨c, _, hc, hheight, hbits, hreach, fun signed _ i v hi _ ↦ ?_⟩
      rw [List.getElem?_replicate] at hi
      split at hi <;> simp at hi

namespace CrossChainHelper

/-- A header that is believed changes the record of a side chain only on the word of the validators
that are recorded for it.  `word` says what the word is about. -/
def EpochSound (word : NeatconExtra → Prop) (cch : CrossChainHelper) (db : ChainInfoDB)
    (bs : Bytes) : Prop :=
  cch.verifySideChainProofData db bs = .ok none →
  ∀ db', cch.saveSideChainProofDataToMainChain db bs = .ok (none, db') →
  ∀ id, db'.recorded id ≠ db.recorded id →
    ∃ h te ep, cch.Reads bs h te ∧ te.chainID = id ∧ db.recordedEpoch id te.height = some ep ∧
      CommitSigned cch.lib ep.validators te ∧ word te

/-- No exempt header brings news unless its commit would have passed. -/
def ExemptionsPass (cch : CrossChainHelper) (db : ChainInfoDB) (bs : Bytes) : Prop :=
  ∀ h te, cch.Reads bs h te → cch.Exempt te → cch.BringsNews db te →
    ∃ ep, db.recordedEpoch te.chainID te.height = some ep ∧
      CommitPasses cch.lib ep.validators te

variable {cch : CrossChainHelper} {db : ChainInfoDB}

theorem Verified.passes (h : cch.Verified db te) :
    ∃ ep, db.recordedEpoch te.chainID te.height = some ep ∧
      CommitPasses cch.lib ep.validators te := by
  obtain ⟨ep, hep, -, c, hc, -, hver⟩ := h
  exact ⟨ep, hep, c, hc, .inl hver⟩

theorem epochSound_word_iff (word : NeatconExtra → Prop) (bs : Bytes) :
    EpochSound word cch db bs ↔ ExemptionsPass cch db bs ∧
      ∀ h te, cch.Reads bs h te → cch.Exempt te ∨ cch.Verified db te → cch.BringsNews db te →
        word te := by
  constructor
  · intro hsound
    -- what a believed header with news is worth
    have hkey : ∀ h te, cch.Reads bs h te → cch.Exempt te ∨ cch.Verified db te →
        cch.BringsNews db te → (∃ ep, db.recordedEpoch te.chainID te.height = some ep ∧
          CommitPasses cch.lib ep.validators te) ∧ word te := by
      intro h te hr hgood hnews
      obtain ⟨db', hsave, hne⟩ := (saves_iff hr te.chainID).2 ⟨rfl, hnews⟩
      obtain ⟨h', te', ep, hr', -, hep, hsigned, hword⟩ := hsound
        (verifySideChainProofData_eq_ok_none.2 ⟨h, te, hr, hgood⟩) db' hsave te.chainID hne
      obtain rfl := hr.unique hr'
      exact ⟨⟨ep, hep, commitSigned_iff.1 hsigned⟩, hword⟩
    exact ⟨fun h te hr hex hnews ↦ (hkey h te hr (.inl hex) hnews).1,
      fun h te hr hgood hnews ↦ (hkey h te hr hgood hnews).2⟩
  · rintro ⟨hpass, hword⟩ hver db' hsave id hne
    obtain ⟨h, te, hr, hgood⟩ := verifySideChainProofData_eq_ok_none.1 hver
    obtain ⟨rfl, hnews⟩ := (saves_iff hr id).1 ⟨db', hsave, hne⟩
    obtain ⟨ep, hep, hc⟩ := hgood.elim (fun hex ↦ hpass h te hr hex hnews) Verified.passes
    exact ⟨h, te, ep, hr, rfl, hep, commitSigned_iff.2 hc, hword h te hr hgood hnews⟩

/-- **On whose word the record changes.**  Validators of the recorded epoch have signed the commit
in the header exactly if no exempt header brings news that would not have passed the check.  They
have signed it for this header exactly if, moreover, its commit names the consensus data of the
header whenever it is believed and brings news. -/
theorem epochSound_iff (cch : CrossChainHelper) (db : ChainInfoDB) (bs : Bytes) :
    (EpochSound (fun _ => True) cch db bs ↔ ExemptionsPass cch db bs) ∧
    (EpochSound (CommitNames cch.lib) cch db bs ↔ ExemptionsPass cch db bs ∧
      ∀ h te, cch.Reads bs h te → cch.Exempt te ∨ cch.Verified db te → cch.BringsNews db te →
        CommitNames cch.lib te) := by
  refine ⟨?_, epochSound_word_iff _ bs⟩
  rw [epochSound_word_iff]
  exact and_iff_left fun _ _ _ _ _ ↦ trivial

namespace Usurped

/-- An epoch of somebody else. -/
def epoch : Epoch := ⟨0, 0, 0, 999, 0, 0, 0, 0, ⟨[⟨[9], [9], 10, 0⟩]⟩⟩

/-- Consensus data with this epoch and without a commit. -/
def ncExtra : NeatconExtra :=
  { NeatconExtra.zero with chainID := "side_1", height := 350, epochBytes := [0] }

/-- A header around them. -/
def header : Header := { Stray.genesis with number := some 350, extra := [0] }

def helper : CrossChainHelper where
  lib := { ValidatorSet.loneLib with readExtra := fun _ => some ncExtra }
  keccak := .toy
  decodeProofData := fun _ => some header
  readEpoch := fun _ => some epoch

end Usurped

open Usurped in
/-- **A side chain is taken over.**  The header carries no commit at all, and afterwards the
recorded epoch has one validator, whom the old ones have never heard of. -/
theorem epochSound_fails :
    helper.verifySideChainProofData .sideOne [] = .ok none ∧
    ((helper.saveSideChainProofDataToMainChain .sideOne []).map fun r =>
        (r.1, r.2.epochNumber "side_1", (r.2.recordedEpoch "side_1" 350).map (·.validators))) =
      .ok (none, some 0, some epoch.validators) ∧
    (ChainInfoDB.sideOne.recordedEpoch "side_1" 350).map (·.validators) =
      some ⟨[⟨[1], [1], 10, 0⟩]⟩ ∧
    ncExtra.seenCommit = none ∧ ¬ EpochSound (fun _ => True) helper .sideOne [] := by
  have haccepts : helper.verifySideChainProofData .sideOne [] = .ok none := by decide +kernel
  have hreads : helper.Reads [] header ncExtra :=
    ⟨rfl, by decide, rfl, by decide, by decide +kernel⟩
  refine ⟨haccepts, by decide +kernel, by decide +kernel, rfl, fun hsound ↦ ?_⟩
  have hnews : helper.BringsNews .sideOne ncExtra :=
    ⟨epoch, 3, rfl, rfl, by rw [if_neg (by decide)]; exact ⟨.inl rfl, .inl (by decide)⟩⟩
  obtain ⟨db', hsave, hne⟩ := (saves_iff hreads "side_1").2 ⟨rfl, hnews⟩
  obtain ⟨h, te, ep, hr, -, -, ⟨c, -, hc, -⟩, -⟩ := hsound haccepts db' hsave "side_1" hne
  obtain rfl := hreads.unique hr
  exact absurd hc (by simp [ncExtra, NeatconExtra.zero])

end CrossChainHelper

end NeatPoS
