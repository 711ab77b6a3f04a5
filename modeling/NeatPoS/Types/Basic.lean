import NeatPoS.Core.Header

/-!
# The data of the consensus protocol

`consensus/neatpos/types` without its operations: block ids, votes, proposals, commits, signature
aggregates, the extra data a header carries, and the canonical documents that are signed.

* A `*BitArray` is an `Option BitArray`, and a `BitArray` is the list of its bits: that is what
  common-go documents about it, and `Size` and `GetIndex` are all the modelled code asks of it.
* Heights are `Nat`.  Rounds are `Int`, as `int` is in the source.  A vote carries its round as a
  `uint64`; every use of it casts from or to `int`, which is a bijection between the 64-bit
  integers, so `Vote.round` holds the `int` reading and the casts disappear.
* The `Type` byte of a vote is `VoteType`: a peer may send any byte, hence `VoteType.other`.

What the neatlib packages (crypto-go, wire-go, merkle-go) compute is not in the repository.  It is
the record `Neatlib`, over which the whole development is parametric.
-/

set_option autoImplicit false

namespace NeatPoS

/-- How a Go routine dies: a run-time error, or one of common-go's panics. -/
inductive Panic where
  /-- A nil pointer is dereferenced, or a method of a nil interface is called. -/
  | nilDereference
  /-- A slice or an array is indexed outside its bounds. -/
  | indexOutOfRange
  /-- An integer is divided by zero. -/
  | divideByZero
  /-- `make` is given a length that is negative or too large. -/
  | makeSlice
  /-- The built-in `panic`. -/
  | explicit (text : String)
  | panicSanity (text : String)
  | panicConsensus (text : String)
  | panicCrisis (text : String)
deriving DecidableEq, Repr

/-- common-go's `BitArray`. -/
abbrev BitArray := List Bool

/-- `BitArray.Size`, on a pointer that may be nil. -/
def bitArraySize (b : Option BitArray) : Nat := (b.getD []).length

/-- `types.PartSetHeader`. -/
structure PartSetHeader where
  total : Nat
  hash : Bytes
deriving DecidableEq, Repr, Inhabited

/-- `PartSetHeader.IsZero`. -/
def PartSetHeader.isZero (psh : PartSetHeader) : Bool := psh.total == 0

/-- `types.BlockID`; `BlockID.Equals` compares both fields, so it is equality. -/
structure BlockID where
  hash : Bytes
  partsHeader : PartSetHeader
deriving DecidableEq, Repr, Inhabited

/-- `BlockID.IsZero`. -/
def BlockID.isZero (b : BlockID) : Bool := b.hash.isEmpty && b.partsHeader.isZero

/-- `BlockID{}`, which a vote for nil carries. -/
def BlockID.zero : BlockID := ⟨[], ⟨0, []⟩⟩

/-- The `Type` byte of votes and aggregates. -/
inductive VoteType where
  /-- `VoteTypePrevote`, `0x01`. -/
  | prevote
  /-- `VoteTypePrecommit`, `0x02`. -/
  | precommit
  /-- Any other byte. -/
  | other (b : UInt8)
deriving DecidableEq, Repr

/-- `IsVoteTypeValid`. -/
def VoteType.isVoteTypeValid : VoteType → Bool
  | .prevote => true
  | .precommit => true
  | .other _ => false

/-- `types.Vote`, less `SignBytes`, which the modelled code only copies. -/
structure Vote where
  validatorAddress : Bytes
  validatorIndex : Nat
  height : Nat
  round : Int
  type : VoteType
  /-- Zero if the vote is for nil. -/
  blockID : BlockID
  signature : Bytes
deriving DecidableEq, Repr

/-- `types.Proposal`, less `NodeID` and `ProposerNetAddr`, which nothing reads. -/
structure Proposal where
  height : Nat
  round : Int
  hash : Bytes
  blockPartsHeader : PartSetHeader
  polRound : Int
  polBlockID : BlockID
  proposerPeerKey : String
  signature : Bytes
deriving DecidableEq, Repr

/-- `types.Commit`. -/
structure Commit where
  blockID : BlockID
  height : Nat
  round : Int
  signAggr : Bytes
  bitArray : Option BitArray
deriving DecidableEq, Repr

/-- `&Commit{}`, the commit a proposed block carries until it is finalized. -/
def Commit.empty : Commit := ⟨.zero, 0, 0, [], none⟩

/-- `types.SignAggr`, less `NumValidators`, `Sum` and `SignBytes`, which nothing reads. -/
structure SignAggr where
  chainID : String
  height : Nat
  round : Int
  type : VoteType
  blockID : BlockID
  maj23 : BlockID
  bitArray : Option BitArray
  signatureAggr : Bytes
deriving DecidableEq, Repr

namespace SignAggr

/-- `MakeSignAggr`. -/
def makeSignAggr (height : Nat) (round : Int) (mtype : VoteType) (blockID : BlockID)
    (chainID : String) (bitArray : BitArray) (signAggr : Bytes) : SignAggr :=
  { chainID, height, round, type := mtype, blockID, maj23 := blockID
    bitArray := some bitArray, signatureAggr := signAggr }

/-- `SignAggr.TwoThirdsMajority`, on a pointer that may be nil. -/
def twoThirdsMajority : Option SignAggr → Option BlockID
  | none => none
  | some sa => if sa.maj23.isZero then none else some sa.maj23

/-- `SignAggr.MakeCommit`. -/
def makeCommit (sa : SignAggr) : Commit :=
  ⟨sa.maj23, sa.height, sa.round, sa.signatureAggr, sa.bitArray⟩

end SignAggr

/-- `types.NeatconExtra`, the consensus data of a block. -/
structure NeatconExtra where
  chainID : String
  height : Nat
  /-- Nanoseconds. -/
  time : Int
  needToSave : Bool
  needToBroadcast : Bool
  epochNumber : Nat
  seenCommitHash : Bytes
  validatorsHash : Bytes
  seenCommit : Option Commit
  epochBytes : Bytes
deriving DecidableEq, Repr

/-- The zero value `NeatconExtra{}`. -/
def NeatconExtra.zero : NeatconExtra := ⟨"", 0, 0, false, false, 0, [], [], none, []⟩

/-- `types.Validator`. -/
structure Validator where
  address : Bytes
  pubKey : Bytes
  votingPower : Int
  remainingEpoch : Nat
deriving DecidableEq, Repr

/-- `types.Part`; the Merkle proof is the list of its aunts. -/
structure Part where
  index : Int
  bytes : Bytes
  proof : List Bytes
deriving DecidableEq, Repr

/-- `types.TX3ProofData`: the proof that accompanies a withdrawal on the main chain.  The proof sets
are opaque. -/
structure TX3ProofData where
  header : Header
  txIndexs : List Nat
  txProofs : List Bytes
deriving DecidableEq, Repr

/-- `types.TdmBlock`: the block, the consensus data and the proofs for withdrawals on the main
chain.  A peer's block may decode with a nil `NcExtra`. -/
structure TdmBlock where
  block : Block
  ncExtra : Option NeatconExtra
  tx3ProofData : List TX3ProofData
deriving DecidableEq, Repr

/-! ## The documents that are signed -/

/-- `CanonicalJSONOnceVote`, with `CanonicalVote` and `CanonicalBlockID` unfolded. -/
structure CanonicalJSONOnceVote where
  chainID : String
  blockID : BlockID
  height : Nat
  round : Int
  type : VoteType
deriving DecidableEq, Repr

/-- `CanonicalJSONOnceProposal`; `CanonicalProposal` leaves the `hash` field empty. -/
structure CanonicalJSONOnceProposal where
  chainID : String
  blockPartsHeader : PartSetHeader
  height : Nat
  polBlockID : BlockID
  polRound : Int
  round : Int
deriving DecidableEq, Repr

/-- The fields that `NeatconExtra.Hash` puts into its Merkle map. -/
structure ExtraMap where
  chainID : String
  height : Nat
  time : Int
  needToSave : Bool
  needToBroadcast : Bool
  epochNumber : Nat
  validators : Bytes
  epochBytes : Bytes
deriving DecidableEq, Repr

/-- The functions of the neatlib packages that the consensus code calls. -/
structure Neatlib where
  /-- crypto-go: `PubKey.VerifyBytes(msg, sig)`. -/
  verifyBytes : Bytes → Bytes → Bytes → Bool
  /-- crypto-go: `BLSPubKeyAggregate`. -/
  blsPubKeyAggregate : List Bytes → Option Bytes
  /-- crypto-go: `BLSSignatureAggregate`. -/
  blsSignatureAggregate : List Bytes → Option Bytes
  /-- crypto-go: `PrivKey.Sign`, for the key of the validator with the given address. -/
  sign : Bytes → Bytes → Bytes
  /-- wire-go: `WriteJSON` of the canonical vote. -/
  voteSignBytes : CanonicalJSONOnceVote → Bytes
  /-- wire-go: `WriteJSON` of the canonical proposal. -/
  proposalSignBytes : CanonicalJSONOnceProposal → Bytes
  /-- wire-go: `BinaryBytes` of a part-set header, used in `BlockID.Key`. -/
  partSetHeaderBytes : PartSetHeader → Bytes
  /-- wire-go: `ReadBinaryBytes` of a header's extra data. -/
  readExtra : Bytes → Option NeatconExtra
  /-- wire-go and `rlp`: `TdmBlock.ToBytes`. -/
  blockToBytes : TdmBlock → Bytes
  /-- wire-go and `rlp`: `TdmBlock.FromBytes`. -/
  blockFromBytes : Bytes → Option TdmBlock
  /-- merkle-go: `SimpleHashFromMap` of a `NeatconExtra`. -/
  extraMapHash : ExtraMap → Bytes
  /-- merkle-go: `SimpleHashFromBinary` of a commit. -/
  commitHash : Commit → Bytes
  /-- merkle-go: `SimpleHashFromHashables` of the validators. -/
  validatorsHash : List Validator → Bytes
  /-- merkle-go: `SimpleProofsFromHashables`, the root and the proofs of a list of parts. -/
  proofsFromParts : List Bytes → Bytes × List (List Bytes)
  /-- merkle-go: `SimpleProof.Verify(index, total, leafHash, rootHash)`; the leaf is given by the
  bytes its hash is taken of. -/
  proofVerify : List Bytes → Int → Nat → Bytes → Bytes → Bool

/-- `SignBytes(chainID, vote)`. -/
def Vote.signBytes (lib : Neatlib) (chainID : String) (v : Vote) : Bytes :=
  lib.voteSignBytes ⟨chainID, v.blockID, v.height, v.round, v.type⟩

/-- `SignBytes(chainID, proposal)`. -/
def Proposal.signBytes (lib : Neatlib) (chainID : String) (p : Proposal) : Bytes :=
  lib.proposalSignBytes ⟨chainID, p.blockPartsHeader, p.height, p.polBlockID, p.polRound, p.round⟩

/-! ## A toy instance

Keys are single bytes, a signature is the key followed by the message, and an aggregate is the list
of the keys followed by the message.  The model is evaluated with it. -/

/-- The bytes of the decimal digits of a number, with a terminator. -/
def toyNat (n : Nat) : Bytes := (Nat.toDigits 10 n).map (fun c => c.toNat.toUInt8) ++ [0]

/-- As `toyNat`, with a sign. -/
def toyInt (i : Int) : Bytes := (if i < 0 then 45 else 43) :: toyNat i.natAbs

/-- A byte for the type of a vote. -/
def toyType : VoteType → UInt8
  | .prevote => 1
  | .precommit => 2
  | .other b => b

/-- The bytes of a block id. -/
def toyBlockID (b : BlockID) : Bytes :=
  toyNat b.hash.length ++ b.hash ++ toyNat b.partsHeader.total ++ b.partsHeader.hash

/-- A concrete `Neatlib`, given how blocks are written and read. -/
def Neatlib.toy (toBytes : TdmBlock → Bytes) (fromBytes : Bytes → Option TdmBlock) : Neatlib where
  verifyBytes pk msg sig := sig == pk ++ msg
  blsPubKeyAggregate pks := if pks.isEmpty then none else some pks.flatten
  blsSignatureAggregate sigs :=
    if sigs.isEmpty then none else some (sigs.flatMap (·.take 1) ++ sigs.headI.drop 1)
  sign key msg := key ++ msg
  voteSignBytes d :=
    asciiBytes d.chainID ++ 0 :: toyNat d.height ++ toyInt d.round ++ toyType d.type ::
      toyBlockID d.blockID
  proposalSignBytes d :=
    asciiBytes d.chainID ++ 0 :: toyNat d.height ++ toyInt d.round ++ toyInt d.polRound ++
      toyNat d.blockPartsHeader.total ++ d.blockPartsHeader.hash ++ toyBlockID d.polBlockID
  partSetHeaderBytes h := toyNat h.total ++ h.hash
  readExtra _ := none
  blockToBytes := toBytes
  blockFromBytes := fromBytes
  extraMapHash m :=
    asciiBytes m.chainID ++ 0 :: toyNat m.height ++ toyInt m.time ++ toyNat m.needToSave.toNat ++
      toyNat m.needToBroadcast.toNat ++ toyNat m.epochNumber ++ m.validators ++ m.epochBytes
  commitHash c := toyNat c.height ++ toyInt c.round ++ toyBlockID c.blockID ++ c.signAggr
  validatorsHash vs := vs.flatMap (·.address)
  proofsFromParts ps := (ps.flatten, ps.map fun _ => [])
  proofVerify _ _ _ _ _ := true

@[simp] theorem SignAggr.twoThirdsMajority_none : SignAggr.twoThirdsMajority none = none := rfl

/-- A majority is read off the `Maj23` field, and nothing else of the aggregate. -/
theorem SignAggr.twoThirdsMajority_eq_some {sa : Option SignAggr} {b : BlockID} :
    twoThirdsMajority sa = some b ↔
      ∃ a, sa = some a ∧ a.maj23 = b ∧ b.isZero = false := by
  cases sa with
  | none => simp
  | some a =>
    by_cases hz : a.maj23.isZero
    · simp only [twoThirdsMajority, if_pos hz, reduceCtorEq, Option.some.injEq, false_iff]
      rintro ⟨_, rfl, rfl, h⟩
      simp [hz] at h
    · simp only [twoThirdsMajority, if_neg hz, Option.some.injEq]
      constructor
      · rintro rfl
        exact ⟨a, rfl, rfl, by simpa using hz⟩
      · rintro ⟨_, rfl, h, _⟩
        exact h

end NeatPoS
