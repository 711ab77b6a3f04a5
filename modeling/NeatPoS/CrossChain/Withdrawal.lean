import NeatPoS.Consensus.Transitions
import NeatPoS.CrossChain.ProofData

/-!
# Withdrawals from side chains

Money comes back from a side chain in two steps.  A transaction on the side chain gives it up
(`WithdrawFromSideChain`, TX3), and one on the main chain claims it (`WithdrawFromMainChain`, TX4).
The proposer of the main-chain block adds the evidence, a header of the side chain with a Merkle
proof of TX3, and every validator checks it before voting: `ValidateTX3ProofData` looks at the
header, and `ValidateTX4WithInMemTX3ProofData` (`cmd/neatio/cross_chain.go`) compares the two
transactions.

`withdrawalBacked_iff` lists what falls between the two.

* The hash of TX3 that TX4 names is not compared with the hash of the transaction that is proved, so
  one TX3 backs any number of TX4.
* The transaction that is proved need not be a call of the contract, let alone of
  `WithdrawFromSideChain`; it is enough that its data can be unpacked as the arguments of one.
* The chain of the header is not compared with the chain of the two transactions.
* The commit is not looked at if the header brings epoch 0, and if it is, then as in
  `NeatPoS.CrossChain.ProofData`: nothing says that it is for a block with this header.

What the Merkle proofs promise is a hypothesis (`MerkleSound`), and so is, inside `CommitSigned`,
what BLS verification promises.
-/

set_option autoImplicit false

namespace NeatPoS

/-- `WithdrawFromMainChainArgs`. -/
structure WithdrawFromMainChainArgs where
  chainId : String
  amount : Nat
  txHash : Bytes
deriving DecidableEq, Repr

/-- `WithdrawFromSideChainArgs`. -/
structure WithdrawFromSideChainArgs where
  chainId : String
deriving DecidableEq, Repr

/-- Why TX4 is refused. -/
inductive WithdrawError where
  /-- `ErrInvalidSender` -/
  | invalidSender
  /-- `invalid TX4: wrong To()` -/
  | wrongTo
  /-- The error of `FunctionTypeFromId`. -/
  | unknownFunction
  /-- `invalid TX4: wrong function` -/
  | wrongFunction
  /-- The error of `UnpackMethodInputs`. -/
  | invalidArguments
  /-- The error of `trie.VerifyProof`. -/
  | invalidProof
  /-- The error of `rlp.DecodeBytes`. -/
  | undecodable
  /-- `params are not consistent with tx in side chain` -/
  | inconsistentParams
deriving DecidableEq, Repr

/-- What `CrossChainHelper` takes from elsewhere to look at transactions. -/
structure WithdrawalHelper extends CrossChainHelper where
  /-- `trie.VerifyProof` with a root, the RLP encoding of an index as the key, and a proof; the
  value that is proved, or an error. -/
  verifyProof : Bytes → Nat → Bytes → Option Bytes
  /-- `rlp.DecodeBytes`, into a transaction. -/
  decodeTx : Bytes → Option Transaction
  /-- `Transaction.Hash` -/
  txHash : Transaction → Bytes
  /-- `types.Sender`, with the signer for the chain id of the transaction. -/
  sender : Transaction → Option Bytes
  /-- `FunctionTypeFromId` -/
  functionTypeFromId : Bytes → Option FunctionType
  /-- `UnpackMethodInputs` for `WithdrawFromMainChain`. -/
  unpackTX4 : Bytes → Option WithdrawFromMainChainArgs
  /-- `UnpackMethodInputs` for `WithdrawFromSideChain`. -/
  unpackTX3 : Bytes → Option WithdrawFromSideChainArgs

/-- `data[4:]`, which panics if there is less. -/
def methodInputs (data : Bytes) : Except Panic Bytes :=
  if data.length < 4 then .error .indexOutOfRange else .ok (data.drop 4)

namespace WithdrawalHelper

variable (cch : WithdrawalHelper) (db : ChainInfoDB)

/-- The loop of `ValidateTX3ProofData` over the proofs. -/
def checkProofs (root : Bytes) : List Nat → List Bytes → Except Panic (Option ProofDataError)
  | [], _ => .ok none
  | _ :: _, [] => .error .indexOutOfRange
  | index :: indexes, proof :: proofs =>
    match cch.verifyProof root index proof with
    | none => .ok (some .invalidProof)
    | some _ => checkProofs root indexes proofs

/-- `ValidateTX3ProofData`; `none` is success. -/
def validateTX3ProofData (proofData : TX3ProofData) : Except Panic (Option ProofDataError) := do
  match ← cch.checkHeader proofData.header with
  | .error e => return some e
  | .ok te =>
    if cch.bringsEpochZero te then return none
    else match ← cch.checkCommit db te with
      | some e => return some e
      | none => cch.checkProofs proofData.header.txHash proofData.txIndexs proofData.txProofs

/-- The second half of `ValidateTX4WithInMemTX3ProofData`: TX3, against the sender and the arguments
of TX4. -/
def compareTX3 (proofData : TX3ProofData) (sender : Bytes) (args : WithdrawFromMainChainArgs) :
    Except Panic (Option WithdrawError) :=
  match proofData.txIndexs, proofData.txProofs with
  | index :: _, proof :: _ =>
    match cch.verifyProof proofData.header.txHash index proof with
    | none => .ok (some .invalidProof)
    | some val =>
      match cch.decodeTx val with
      | none => .ok (some .undecodable)
      | some tx3 =>
        match cch.sender tx3 with
        | none => .ok (some .invalidSender)
        | some tx3From =>
          match methodInputs tx3.payload with
          | .error p => .error p
          | .ok inputs =>
            match cch.unpackTX3 inputs with
            | none => .ok (some .invalidArguments)
            | some tx3Args =>
              if sender ≠ tx3From ∨ args.chainId ≠ tx3Args.chainId ∨ args.amount ≠ tx3.amount then
                .ok (some .inconsistentParams)
              else .ok none
  | _, _ => .error .indexOutOfRange

/-- `ValidateTX4WithInMemTX3ProofData`; `none` is success. -/
def validateTX4WithInMemTX3ProofData (tx4 : Transaction) (proofData : TX3ProofData) :
    Except Panic (Option WithdrawError) :=
  match cch.sender tx4 with
  | none => .ok (some .invalidSender)
  | some sender =>
    if !isNeatChainContractAddr tx4.recipient then .ok (some .wrongTo)
    else match selector tx4.payload with
      | .error p => .error p
      | .ok id =>
        match cch.functionTypeFromId id with
        | none => .ok (some .unknownFunction)
        | some function =>
          if function ≠ .withdrawFromMainChain then .ok (some .wrongFunction)
          else match cch.unpackTX4 (tx4.payload.drop 4) with
            | none => .ok (some .invalidArguments)
            | some args => cch.compareTX3 proofData sender args

/-- Both functions accept. -/
def Accepts (tx4 : Transaction) (proofData : TX3ProofData) : Prop :=
  cch.validateTX3ProofData db proofData = .ok none ∧
    cch.validateTX4WithInMemTX3ProofData tx4 proofData = .ok none

instance (tx4 : Transaction) (proofData : TX3ProofData) :
    Decidable (cch.Accepts db tx4 proofData) :=
  inferInstanceAs (Decidable (_ ∧ _))

/-! ## What is proved -/

/-- The transaction that the first of the proofs is about. -/
def provenTX3 (proofData : TX3ProofData) : Option Transaction :=
  match proofData.txIndexs, proofData.txProofs with
  | index :: _, proof :: _ =>
    (cch.verifyProof proofData.header.txHash index proof).bind cch.decodeTx
  | _, _ => none

/-- What a Merkle proof promises: whatever transactions the root is derived from, what is proved is
one of them. -/
def MerkleSound : Prop :=
  ∀ (txs : List Transaction) (index : Nat) (proof val : Bytes) (tx : Transaction),
    cch.verifyProof (cch.keccak.deriveSha txs) index proof = some val →
    cch.decodeTx val = some tx → tx ∈ txs

/-- The transaction calls `WithdrawFromSideChain`. -/
def CallsWithdraw (tx : Transaction) : Prop :=
  isNeatChainContractAddr tx.recipient = true ∧ ∃ id, selector tx.payload = .ok id ∧
    cch.functionTypeFromId id = some .withdrawFromSideChain

/-- A block with this header: the hash is that of the header, and the transactions are those of its
root. -/
def IsBlockOf (h : Header) (b : TdmBlock) : Prop :=
  b.block.hash cch.keccak = h.hash cch.keccak ∧
    cch.keccak.deriveSha b.block.transactions = h.txHash

/-- The commit in the extra data is for this block. -/
def CommitIsFor (te : NeatconExtra) (b : TdmBlock) : Prop :=
  ∃ c, te.seenCommit = some c ∧ TdmBlock.hash cch.lib (some b) = .ok c.blockID.hash ∧
    PartSet.header (some (b.makePartSet cch.lib 65536)) = c.blockID.partsHeader

/-- **What a withdrawal should rest on**: a withdrawal on the side chain, in a block that validators
of the recorded epoch have committed, with the hash, the sender, the chain and the amount of TX4. -/
def WithdrawalBacked (tx4 : Transaction) (proofData : TX3ProofData) : Prop :=
  ∃ args tx3 tx3Args te ep b,
    cch.unpackTX4 (tx4.payload.drop 4) = some args ∧
    cch.provenTX3 proofData = some tx3 ∧ cch.CallsWithdraw tx3 ∧
    cch.unpackTX3 (tx3.payload.drop 4) = some tx3Args ∧
    extractNeatconExtra cch.lib proofData.header = some te ∧ te.chainID = args.chainId ∧
    db.recordedEpoch te.chainID te.height = some ep ∧ CommitSigned cch.lib ep.validators te ∧
    cch.IsBlockOf proofData.header b ∧ cch.CommitIsFor te b ∧ tx3 ∈ b.block.transactions ∧
    cch.txHash tx3 = args.txHash ∧ cch.sender tx3 = cch.sender tx4 ∧ cch.sender tx4 ≠ none ∧
    tx3Args.chainId = args.chainId ∧ tx3.amount = args.amount

/-- What neither function looks at. -/
structure GapsFilled (tx4 : Transaction) (proofData : TX3ProofData) : Prop where
  /-- TX3 has the hash that TX4 names. -/
  txHash : ∀ args tx3, cch.unpackTX4 (tx4.payload.drop 4) = some args →
    cch.provenTX3 proofData = some tx3 → cch.txHash tx3 = args.txHash
  /-- TX3 is a withdrawal. -/
  calls : ∀ tx3, cch.provenTX3 proofData = some tx3 → cch.CallsWithdraw tx3
  /-- The header is one of the chain that TX4 names. -/
  chainID : ∀ args te, cch.unpackTX4 (tx4.payload.drop 4) = some args →
    extractNeatconExtra cch.lib proofData.header = some te → te.chainID = args.chainId
  /-- If the header brings epoch 0, its commit would have passed. -/
  commit : ∀ te, extractNeatconExtra cch.lib proofData.header = some te →
    cch.bringsEpochZero te = true → ∃ ep, db.recordedEpoch te.chainID te.height = some ep ∧
      CommitPasses cch.lib ep.validators te
  /-- The commit is for a block with this header. -/
  block : ∀ te, extractNeatconExtra cch.lib proofData.header = some te →
    ∃ b, cch.IsBlockOf proofData.header b ∧ cch.CommitIsFor te b

variable {cch db} {tx4 : Transaction} {proofData : TX3ProofData}

/-- What `ValidateTX3ProofData` has made sure of. -/
theorem validateTX3ProofData_spec (h : cch.validateTX3ProofData db proofData = .ok none) :
    ∃ te, extractNeatconExtra cch.lib proofData.header = some te ∧
      (cch.bringsEpochZero te = true ∨ cch.Verified db te) := by
  rw [validateTX3ProofData] at h
  rcases hcheck : cch.checkHeader proofData.header with p | (e | te)
  · simp [hcheck, bind, Except.bind] at h
  · simp [hcheck, bind, Except.bind, pure, Except.pure] at h
  refine ⟨te, (CrossChainHelper.checkHeader_eq_ok.1 hcheck).2.1, ?_⟩
  by_cases hzero : cch.bringsEpochZero te = true
  · exact .inl hzero
  right
  rw [← CrossChainHelper.checkCommit_eq_ok_none]
  rcases hcommit : cch.checkCommit db te with p | (_ | e)
  · simp [hcheck, hzero, hcommit, bind, Except.bind] at h
  · rfl
  · simp [hcheck, hzero, hcommit, bind, Except.bind, pure, Except.pure] at h

theorem compareTX3_eq_ok_none {sender : Bytes} {args : WithdrawFromMainChainArgs} :
    cch.compareTX3 proofData sender args = .ok none ↔
      ∃ tx3 tx3Args, cch.provenTX3 proofData = some tx3 ∧ cch.sender tx3 = some sender ∧
        4 ≤ tx3.payload.length ∧ cch.unpackTX3 (tx3.payload.drop 4) = some tx3Args ∧
        tx3Args.chainId = args.chainId ∧ tx3.amount = args.amount := by
  rw [compareTX3, provenTX3]
  split
  · rename_i index rest proof rest' hindexes hproofs
    cases hval : cch.verifyProof proofData.header.txHash index proof with
    | none => simp
    | some val =>
      cases hdec : cch.decodeTx val with
      | none => simp [hdec]
      | some tx3 =>
        cases hsender : cch.sender tx3 with
        | none => simp [hdec, hsender]
        | some tx3From =>
          simp only [Option.bind_some, hdec, Option.some.injEq, exists_and_left, exists_eq_left',
            hsender, methodInputs]
          by_cases hlen : tx3.payload.length < 4
          · simp [hlen]
          cases hargs : cch.unpackTX3 (tx3.payload.drop 4) with
          | none => simp [hlen, hargs]
          | some tx3Args =>
            have hlen' : 4 ≤ tx3.payload.length := by omega
            by_cases hsame : sender = tx3From ∧ args.chainId = tx3Args.chainId ∧
                args.amount = tx3.amount
            · obtain ⟨rfl, hchain, hamount⟩ := hsame
              simp [hlen, hargs, hchain, hamount, hlen']
            have hdiff : sender ≠ tx3From ∨ args.chainId ≠ tx3Args.chainId ∨
                args.amount ≠ tx3.amount := by
              by_contra hall
              simp only [not_or, not_not] at hall
              exact hsame hall
            simp only [if_neg hlen, hargs, if_pos hdiff, Except.ok.injEq, reduceCtorEq,
              Option.some.injEq, exists_eq_left', false_iff, not_and]
            rintro rfl - hchain hamount
            exact hsame ⟨rfl, hchain.symm, hamount.symm⟩
  · simp

/-- What `ValidateTX4WithInMemTX3ProofData` has made sure of. -/
theorem validateTX4WithInMemTX3ProofData_spec
    (h : cch.validateTX4WithInMemTX3ProofData tx4 proofData = .ok none) :
    ∃ sender args tx3 tx3Args, cch.sender tx4 = some sender ∧
      cch.unpackTX4 (tx4.payload.drop 4) = some args ∧ cch.provenTX3 proofData = some tx3 ∧
      cch.sender tx3 = some sender ∧ cch.unpackTX3 (tx3.payload.drop 4) = some tx3Args ∧
      tx3Args.chainId = args.chainId ∧ tx3.amount = args.amount := by
  rw [validateTX4WithInMemTX3ProofData] at h
  split at h
  · simp at h
  rename_i sender hsender
  split at h
  · simp at h
  split at h
  · simp at h
  split at h
  · simp at h
  split at h
  · simp at h
  split at h
  · simp at h
  rename_i args hargs
  obtain ⟨tx3, tx3Args, hproven, hfrom, -, hunpack, hchain, hamount⟩ :=
    compareTX3_eq_ok_none.1 h
  exact ⟨sender, args, tx3, tx3Args, hsender, hargs, hproven, hfrom, hunpack, hchain,
    hamount⟩

/-- What is proved is in every block of the header. -/
theorem MerkleSound.mem_of_isBlockOf (hm : cch.MerkleSound) {tx3 : Transaction} {b : TdmBlock}
    (htx : cch.provenTX3 proofData = some tx3) (hb : cch.IsBlockOf proofData.header b) :
    tx3 ∈ b.block.transactions := by
  rw [provenTX3] at htx
  split at htx
  · rename_i index rest proof rest' hindexes hproofs
    obtain ⟨val, hval, hdec⟩ := Option.bind_eq_some_iff.1 htx
    rw [← hb.2] at hval
    exact hm _ index proof val tx3 hval hdec
  · simp at htx

/-- A validator votes for a block only if every withdrawal in it has been accepted with evidence
from the block. -/
theorem accepts_of_validateTX4 {env : Env}
    (henv : ∀ tx proof, env.validateTX3ProofData tx proof = decide (cch.Accepts db tx proof))
    {txs : List Transaction} {proofs : List TX3ProofData}
    (h : validateTX4 env txs proofs = .ok true) :
    ∀ tx ∈ txs, contractFunction env tx = .ok (some .withdrawFromMainChain) →
      ∃ proof ∈ proofs, cch.Accepts db tx proof := by
  induction txs generalizing proofs with
  | nil => simp
  | cons tx _ ih =>
    rw [validateTX4.eq_def] at h
    simp only at h
    rcases hf : contractFunction env tx with _ | f
    · simp [hf, bind, Except.bind] at h
    simp only [hf, bind, Except.bind] at h
    by_cases hwithdraw : f = some .withdrawFromMainChain
    · rw [if_pos hwithdraw] at h
      cases proofs with
      | nil => simp [pure, Except.pure] at h
      | cons proof =>
        simp only [henv, decide_eq_true_eq] at h
        by_cases hacc : cch.Accepts db tx proof
        · rw [if_pos hacc] at h
          rintro tx' (_ | ⟨_, hmem⟩) hcall
          · exact ⟨proof, List.mem_cons_self, hacc⟩
          · obtain ⟨proof', hproof', hacc'⟩ := ih h tx' hmem hcall
            exact ⟨proof', List.mem_cons_of_mem _ hproof', hacc'⟩
        · simp [hacc, pure, Except.pure] at h
    · rw [if_neg hwithdraw] at h
      rintro tx' (_ | ⟨_, hmem⟩) hcall
      · rw [hf] at hcall
        exact absurd (Except.ok.inj hcall) hwithdraw
      · exact ih h tx' hmem hcall

/-- **Which withdrawals are backed.**  TX4 and the evidence for it that are accepted are what they
seem to be exactly if what neither function looks at is right as well. -/
theorem withdrawalBacked_iff (cch : WithdrawalHelper) (hm : cch.MerkleSound) (db : ChainInfoDB)
    (tx4 : Transaction) (proofData : TX3ProofData) :
    (cch.Accepts db tx4 proofData → cch.WithdrawalBacked db tx4 proofData) ↔
      (cch.Accepts db tx4 proofData → cch.GapsFilled db tx4 proofData) := by
  refine forall_congr' fun hacc ↦ ?_
  obtain ⟨te, hextra, hcommit⟩ := validateTX3ProofData_spec hacc.1
  obtain ⟨_, args, tx3, tx3Args, hsender, hargs, hproven, hfrom, hunpack, hchain, hamount⟩ :=
    validateTX4WithInMemTX3ProofData_spec hacc.2
  constructor
  · rintro ⟨_, _, _, _, ep, b, hargs', hproven', hcalls, -, hextra', hid, hep, hsigned,
      hblock, hfor, -, hhash, -⟩
    refine ⟨fun a t ha ht ↦ ?_, fun t ht ↦ ?_, fun a e ha he ↦ ?_, fun e he _ ↦ ?_, fun e he ↦ ?_⟩
    · rw [hargs'] at ha
      rw [hproven'] at ht
      rw [← Option.some.inj ha, ← Option.some.inj ht]
      exact hhash
    · rw [hproven'] at ht
      rw [← Option.some.inj ht]
      exact hcalls
    · rw [hargs'] at ha
      rw [hextra'] at he
      rw [← Option.some.inj ha, ← Option.some.inj he]
      exact hid
    · rw [hextra'] at he
      rw [← Option.some.inj he]
      exact ⟨ep, hep, commitSigned_iff.1 hsigned⟩
    · rw [hextra'] at he
      rw [← Option.some.inj he]
      exact ⟨b, hblock, hfor⟩
  · intro hgaps
    obtain ⟨ep, hep, hpass⟩ :=
      hcommit.elim (hgaps.commit te hextra) CrossChainHelper.Verified.passes
    obtain ⟨b, hblock, hfor⟩ := hgaps.block te hextra
    exact ⟨args, tx3, tx3Args, te, ep, b, hargs, hproven, hgaps.calls tx3 hproven, hunpack, hextra,
      hgaps.chainID args te hargs hextra, hep, commitSigned_iff.2 hpass, hblock, hfor,
      hm.mem_of_isBlockOf hproven hblock,
        hgaps.txHash args tx3 hargs hproven, by rw [hfrom, hsender],
      by simp [hsender], hchain, hamount⟩

namespace Replayed

/-- A withdrawal on the side chain. -/
def tx3 : Transaction := ⟨0, 1, 0, some chainContractMagicAddr, 5, [0, 0, 0, 3], 0, 0, 0⟩

/-- The claim on the main chain, with the hash that it names. -/
def claim (hash : Bytes) : Transaction :=
  ⟨0, 1, 0, some chainContractMagicAddr, 0, [0, 0, 0, 4] ++ hash, 0, 0, 0⟩

/-- The hash of a transaction. -/
def hashOf (tx : Transaction) : Bytes :=
  toyConcat [toyOption (some tx.accountNonce), toyOption (some tx.price),
    toyOption (some tx.gasLimit), toyConcat tx.recipient.toList, toyOption (some tx.amount),
    tx.payload, toyOption (some tx.v), toyOption (some tx.r), toyOption (some tx.s)]

/-- The consensus data of the block with the withdrawal, as they are voted on. -/
def proposed : NeatconExtra :=
  { NeatconExtra.zero with
    chainID := "side_1", height := 350, validatorsHash := [1], seenCommit := some .empty }

/-- The commit of the block, signed by the validator. -/
def commit : Commit :=
  let blockID : BlockID := ⟨proposed.hash ValidatorSet.loneLib, ⟨0, []⟩⟩
  { blockID, height := 350, round := 0, bitArray := some [true]
    signAggr := 1 :: ValidatorSet.loneLib.voteSignBytes ⟨"side_1", blockID, 350, 0, .precommit⟩ }

/-- The consensus data in the header. -/
def ncExtra : NeatconExtra :=
  { proposed with
    seenCommitHash := ValidatorSet.loneLib.commitHash commit, seenCommit := some commit }

/-- The header of the block. -/
def header : Header := { Stray.genesis with number := some 350, extra := [0], txHash := [1] }

/-- The block, as it is voted on. -/
def block : TdmBlock := ⟨⟨{ header with extra := [] }, [tx3], []⟩, some proposed, []⟩

/-- The evidence. -/
def evidence : TX3ProofData := ⟨header, [0], [[]]⟩

/-- The root of the block is `[1]`, and what is proved under that root is the withdrawal. -/
def helper : WithdrawalHelper where
  lib := { ValidatorSet.loneLib with readExtra := fun _ => some ncExtra }
  keccak := ⟨Keccak.toy.rlpHash, fun txs => if txs = [tx3] then [1] else [0], fun _ => []⟩
  decodeProofData := fun _ => none
  readEpoch := fun _ => none
  verifyProof := fun root _ _ => if root = [1] then some [1] else none
  decodeTx := fun _ => some tx3
  txHash := hashOf
  sender := fun _ => some [5]
  functionTypeFromId := fun id =>
    some (if id = [0, 0, 0, 3] then .withdrawFromSideChain else .withdrawFromMainChain)
  unpackTX4 := fun inputs => some ⟨"side_1", 5, inputs⟩
  unpackTX3 := fun _ => some ⟨"side_1"⟩

theorem helper_merkleSound : helper.MerkleSound := by
  intro txs index proof val tx hval htx
  have hroot : helper.keccak.deriveSha txs = [1] := by
    by_contra hne
    have hfail : helper.verifyProof (helper.keccak.deriveSha txs) index proof = none := if_neg hne
    rw [hfail] at hval
    cases hval
  have htxs : txs = [tx3] := by
    by_contra hne
    simp [helper, hne] at hroot
  obtain rfl : tx3 = tx := Option.some.inj htx
  simp [htxs]

end Replayed

open Replayed in
/-- The claim with the right hash is backed. -/
theorem withdrawalBacked_iff_claim :
    helper.WithdrawalBacked .sideOne (claim (hashOf tx3)) evidence := by
  refine (withdrawalBacked_iff helper helper_merkleSound .sideOne _ _).2 (fun _ ↦ ?_)
    (by decide +kernel)
  refine ⟨fun args t ha ht ↦ ?_, fun t ht ↦ ?_, fun args te ha he ↦ ?_, fun te he hzero ↦ ?_,
    fun te he ↦ ⟨block, ?_, commit, ?_, ?_, rfl⟩⟩
  · cases ha
    obtain rfl : tx3 = t := Option.some.inj ht
    rfl
  · obtain rfl : tx3 = t := Option.some.inj ht
    exact ⟨by decide +kernel, _, rfl, rfl⟩
  · cases ha
    obtain rfl : ncExtra = te := Option.some.inj he
    rfl
  · obtain rfl : ncExtra = te := Option.some.inj he
    cases hzero
  · exact ⟨by decide +kernel, by decide +kernel⟩
  · obtain rfl : ncExtra = te := Option.some.inj he
    rfl
  · decide +kernel

open Replayed in
/-- **A withdrawal without backing.**  The same evidence is accepted for a claim that names a hash
which no transaction has. -/
theorem withdrawal_unbacked :
    helper.MerkleSound ∧ helper.Accepts .sideOne (claim [9]) evidence ∧
    helper.unpackTX4 ((claim [9]).payload.drop 4) = some ⟨"side_1", 5, [9]⟩ ∧
    (∀ tx, helper.txHash tx ≠ [9]) ∧
    ¬ helper.WithdrawalBacked .sideOne (claim [9]) evidence := by
  have hnone : ∀ tx, helper.txHash tx ≠ [9] := by
    intro tx
    simp [helper, hashOf, toyConcat, toyOption, List.replicate_succ]
  refine ⟨helper_merkleSound, by decide +kernel, rfl, hnone, ?_⟩
  rintro ⟨args, t, -, -, -, -, hargs, -, -, -, -, -, -, -, -, -, -, hhash, -⟩
  obtain rfl : WithdrawFromMainChainArgs.mk "side_1" 5 [9] = args := Option.some.inj hargs
  exact hnone t hhash

end WithdrawalHelper

end NeatPoS
