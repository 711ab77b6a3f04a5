import NeatPoS.Core.Header

/-!
# What the chain checks of a proposed block

`BlockChain.ValidateBlock` (`core/blockchain.go`), with `ValidateBody` and `ValidateState` of
`core/block_validator.go` and the engine's `VerifyHeaderBeforeConsensus`.  This is all that a
non-proposer runs on the block inside a proposal before it prevotes.

The store is a parameter: the block cache, the database, which state roots are present, and the
execution of a block on top of a state.  Note that `GetBlock` asks the cache first, by hash alone,
so that the number a block claims for its parent is not compared with anything when the parent is
cached.
-/

set_option autoImplicit false

namespace NeatPoS

/-- What executing a block yields, as far as `ValidateState` looks at it. -/
structure ProcessResult where
  usedGas : Nat
  bloom : Bytes
  receiptSha : Bytes
  root : Bytes
deriving DecidableEq, Repr

/-- The block store and the state processor of a node. -/
structure BlockChain where
  keccak : Keccak
  /-- `BadHashes` -/
  badHashes : Bytes → Bool
  /-- `blockCache`, keyed by the block hash. -/
  blockCache : Bytes → Option Block
  /-- `rawdb.ReadBlock` -/
  readBlock : Bytes → Nat → Option Block
  /-- `HasState` -/
  hasState : Bytes → Bool
  /-- `processor.Process`, on the state with the given root. -/
  process : Block → Bytes → Option ProcessResult
  /-- `CurrentBlock` -/
  currentBlock : Block
  /-- `GetHeaderByNumber` -/
  getHeaderByNumber : Nat → Option Header

/-- Why a header is refused before consensus. -/
inductive HeaderError where
  | unknownBlock
  | invalidNonce
  | invalidMixDigest
  | invalidUncleHash
  | invalidDifficulty
deriving DecidableEq, Repr

/-- Why `ValidateBlock` refuses a block. -/
inductive ValidateError where
  | blacklistedHash
  | header (e : HeaderError)
  | knownBlock
  | uncles
  | uncleHashMismatch
  | txHashMismatch
  | unknownAncestor
  | prunedAncestor
  | stateMissing
  | processFailed
  | invalidGasUsed
  | invalidBloom
  | invalidReceiptHash
  | invalidRoot
deriving DecidableEq, Repr

/-- `NeatconEmptyNonce`. -/
def neatconEmptyNonce : Bytes := List.replicate 8 0

/-- `NeatconNonce`. -/
def neatconNonce : Bytes := [0x88, 0xff, 0x88, 0xff, 0x88, 0xff, 0x88, 0xff]

/-- The checks of a header's form that `verifyHeader` and `VerifyHeaderBeforeConsensus` share. -/
def verifyHeaderForm (k : Keccak) (h : Header) : Option HeaderError :=
  if h.nonce ≠ neatconEmptyNonce ∧ h.nonce ≠ neatconNonce then some .invalidNonce
  else if h.mixDigest ≠ neatconDigest then some .invalidMixDigest
  else if h.uncleHash ≠ k.calcUncleHash [] then some .invalidUncleHash
  else if h.difficulty ≠ some 1 then some .invalidDifficulty
  else none

/-- `VerifyHeaderBeforeConsensus`. -/
def verifyHeaderBeforeConsensus (k : Keccak) (h : Header) : Option HeaderError :=
  if h.number.isNone then some .unknownBlock else verifyHeaderForm k h

/-- The number before `n`, as a `uint64`. -/
def prevU64 (n : Nat) : Nat := (n + (2 ^ 64 - 1)) % 2 ^ 64

namespace BlockChain

/-- `BlockChain.GetBlock`. -/
def getBlock (bc : BlockChain) (hash : Bytes) (number : Nat) : Option Block :=
  (bc.blockCache hash).orElse fun _ => bc.readBlock hash number

/-- `BlockChain.HasBlockAndState`. -/
def hasBlockAndState (bc : BlockChain) (hash : Bytes) (number : Nat) : Bool :=
  match bc.getBlock hash number with
  | none => false
  | some b => bc.hasState b.header.root

/-- `BlockValidator.ValidateBody`. -/
def validateBody (bc : BlockChain) (b : Block) : Option ValidateError :=
  if bc.hasBlockAndState (b.hash bc.keccak) b.numberU64 then some .knownBlock
  else if !b.uncles.isEmpty then some .uncles
  else if bc.keccak.calcUncleHash b.uncles ≠ b.header.uncleHash then some .uncleHashMismatch
  else if bc.keccak.deriveSha b.transactions ≠ b.header.txHash then some .txHashMismatch
  else if !bc.hasBlockAndState b.header.parentHash (prevU64 b.numberU64) then
    if (bc.getBlock b.header.parentHash (prevU64 b.numberU64)).isNone then some .unknownAncestor
    else some .prunedAncestor
  else none

/-- `BlockValidator.ValidateState`. -/
def validateState (b : Block) (r : ProcessResult) : Option ValidateError :=
  if b.header.gasUsed ≠ r.usedGas then some .invalidGasUsed
  else if r.bloom ≠ b.header.bloom then some .invalidBloom
  else if r.receiptSha ≠ b.header.receiptHash then some .invalidReceiptHash
  else if b.header.root ≠ r.root then some .invalidRoot
  else none

/-- `BlockChain.ValidateBlock`: `none` is success. -/
def validateBlock (bc : BlockChain) (b : Block) : Option ValidateError :=
  if bc.badHashes (b.hash bc.keccak) then some .blacklistedHash
  else match verifyHeaderBeforeConsensus bc.keccak b.header with
    | some e => some (.header e)
    | none =>
      match bc.validateBody b with
      | some e => some e
      | none =>
        match bc.getBlock b.header.parentHash (prevU64 b.numberU64) with
        | none => some .unknownAncestor
        | some parent =>
          if !bc.hasState parent.header.root then some .stateMissing
          else match bc.process b parent.header.root with
            | none => some .processFailed
            | some r => validateState b r

end BlockChain

end NeatPoS
