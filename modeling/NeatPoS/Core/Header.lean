import Mathlib.Algebra.GroupWithZero.Nat
import Mathlib.Data.List.Basic

/-!
# Headers, transactions and blocks

The part of `core/types` that the consensus engine reads: the block header with its hash, the
transaction, and the block that carries both.

Two choices of representation are made once, here.

* A byte slice and a fixed-size byte array (`common.Hash`, `common.Address`) are both `Bytes`, a
  list of bytes.  No modelled function depends on the length of a hash.
* A `*big.Int` is an `Option Nat`.  RLP has no encoding of a negative number, so a decoded header
  never holds one; it does encode `nil` like zero, which is why `Header.rlpFields` forgets the
  difference before the header reaches the hash function.

Keccak itself is outside the model: `Keccak.rlpHash` is a parameter, and the results that need it
to be free of collisions say so (`Keccak.CollisionFree`).
-/

set_option autoImplicit false

namespace NeatPoS

/-- A byte slice. -/
abbrev Bytes := List UInt8

/-- The ASCII bytes of a text. -/
def asciiBytes (s : String) : Bytes := s.toList.map fun c => c.toNat.toUInt8

/-- `types.Header`. -/
structure Header where
  parentHash : Bytes
  uncleHash : Bytes
  coinbase : Bytes
  root : Bytes
  txHash : Bytes
  receiptHash : Bytes
  bloom : Bytes
  difficulty : Option Nat
  number : Option Nat
  gasLimit : Nat
  gasUsed : Nat
  time : Option Nat
  extra : Bytes
  mixDigest : Bytes
  nonce : Bytes
  /-- For side chains only. -/
  mainChainNumber : Option Nat
deriving DecidableEq, Repr

/-- `types.Transaction`: the fields of `txdata` that RLP encodes. -/
structure Transaction where
  accountNonce : Nat
  price : Nat
  gasLimit : Nat
  /-- `nil` means contract creation. -/
  recipient : Option Bytes
  amount : Nat
  payload : Bytes
  v : Nat
  r : Nat
  s : Nat
deriving DecidableEq, Repr

/-- `types.Block`, without its caches. -/
structure Block where
  header : Header
  transactions : List Transaction
  uncles : List Header
deriving DecidableEq, Repr

/-- `Block.NumberU64`: the low 64 bits of the number. -/
def Block.numberU64 (b : Block) : Nat := b.header.number.getD 0 % 2 ^ 64

/-- `NeatconDigest`, the mix digest that marks a block of this engine. -/
def neatconDigest : Bytes := asciiBytes "ctical byzantine fault tolerance"

/-- `MagicExtra`, what the extra data are replaced by before a header is hashed. -/
def magicExtra : Bytes := asciiBytes "neatio_tmp_extra"

namespace Header

/-- `CopyHeader`: the three copied numbers lose their `nil`, `MainChainNumber` is shared. -/
def copyHeader (h : Header) : Header :=
  { h with
    time := some (h.time.getD 0)
    difficulty := some (h.difficulty.getD 0)
    number := some (h.number.getD 0) }

/-- `NeatconFilteredHeader`. -/
def neatconFilteredHeader (h : Header) : Header :=
  { h.copyHeader with extra := magicExtra }

/-- What the RLP encoding of a header retains of it: a `nil` number is written as zero. -/
def rlpFields (h : Header) : Header :=
  { h.copyHeader with mainChainNumber := some (h.mainChainNumber.getD 0) }

end Header

/-- The Keccak hashes of RLP encodings that `core/types` computes. -/
structure Keccak where
  /-- `rlpHash` of a header, as a function of its RLP fields. -/
  rlpHash : Header → Bytes
  /-- `DeriveSha` of the transactions. -/
  deriveSha : List Transaction → Bytes
  /-- `CalcUncleHash`. -/
  calcUncleHash : List Header → Bytes

/-- The hash function has no collisions: headers of equal hash have the same RLP encoding. -/
def Keccak.CollisionFree (k : Keccak) : Prop :=
  ∀ h₁ h₂ : Header, k.rlpHash h₁.rlpFields = k.rlpHash h₂.rlpFields → h₁.rlpFields = h₂.rlpFields

/-- `Header.Hash`. -/
def Header.hash (k : Keccak) (h : Header) : Bytes :=
  -- the filtered header is never nil in this version of the code
  if h.mixDigest = neatconDigest then k.rlpHash h.neatconFilteredHeader.rlpFields
  else k.rlpHash h.rlpFields

/-- `Block.Hash`. -/
def Block.hash (k : Keccak) (b : Block) : Bytes := b.header.hash k

/-! ## A hash function without collisions

Any encoding that can be read back will do.  The model is evaluated with this one. -/

/-- Byte strings one after the other, each after its length in unary. -/
def toyConcat : List Bytes → Bytes
  | [] => []
  | b :: bs => List.replicate b.length 1 ++ 0 :: (b ++ toyConcat bs)

theorem replicate_append_inj {n m : Nat} {x y : Bytes}
    (h : List.replicate n (1 : UInt8) ++ 0 :: x = List.replicate m 1 ++ 0 :: y) :
    n = m ∧ x = y := by
  induction n generalizing m with
  | zero =>
    cases m with
    | zero => exact ⟨rfl, (List.cons.inj h).2⟩
    | succ => exact absurd (List.cons.inj h).1 (by decide)
  | succ _ ih =>
    cases m with
    | zero => exact absurd (List.cons.inj h).1 (by decide)
    | succ =>
      obtain ⟨hn, hx⟩ := ih (List.cons.inj h).2
      exact ⟨congrArg Nat.succ hn, hx⟩

theorem toyConcat_injective : Function.Injective toyConcat := by
  intro bs
  induction bs with
  | nil =>
    intro cs h
    cases cs with
    | nil => rfl
    | cons => simp [toyConcat] at h
  | cons _ _ ih =>
    intro cs h
    cases cs with
    | nil => simp [toyConcat] at h
    | cons =>
      obtain ⟨hlen, hrest⟩ := replicate_append_inj h
      obtain ⟨hb, hbs⟩ := List.append_inj hrest hlen
      rw [hb, ih hbs]

/-- A number in unary; nil is told from zero. -/
def toyOption (n : Option Nat) : Bytes := (n.map fun n => List.replicate (n + 1) 0).getD []

theorem toyOption_injective : Function.Injective toyOption := by
  intro n m h
  cases n with
  | none =>
    cases m with
    | none => rfl
    | some => simp [toyOption, List.replicate_succ] at h
  | some =>
    cases m with
    | none => simp [toyOption, List.replicate_succ] at h
    | some =>
      have hlen := congrArg List.length h
      simp only [toyOption, Option.map_some, Option.getD_some, List.length_replicate] at hlen
      rw [Nat.succ.inj hlen]

/-- The fields of a header as byte strings. -/
def Header.toyFields (h : Header) : List Bytes :=
  [h.parentHash, h.uncleHash, h.coinbase, h.root, h.txHash, h.receiptHash, h.bloom,
    toyOption h.difficulty, toyOption h.number, toyOption (some h.gasLimit),
    toyOption (some h.gasUsed), toyOption h.time, h.extra, h.mixDigest, h.nonce,
    toyOption h.mainChainNumber]

/-- A concrete `Keccak`. -/
def Keccak.toy : Keccak := ⟨fun h => toyConcat h.toyFields, fun _ => [], fun _ => []⟩

theorem Keccak.toy_collisionFree : Keccak.toy.CollisionFree := by
  intro h₁ h₂ heq
  have hfields : h₁.rlpFields.toyFields = h₂.rlpFields.toyFields := toyConcat_injective heq
  generalize h₁.rlpFields = g₁ at hfields
  generalize h₂.rlpFields = g₂ at hfields
  cases g₁
  cases g₂
  simpa [Header.toyFields, toyOption_injective.eq_iff] using hfields

end NeatPoS
