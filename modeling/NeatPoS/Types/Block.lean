import NeatPoS.Types.Basic

/-!
# Part sets and consensus blocks

`types/part_set.go` and `types/block.go`.  A block travels in parts.  The header of a part set, a
Merkle root over the parts, covers every byte of the block; the *hash* of a consensus block is the
hash of its `NeatconExtra` only, and covers neither the transactions nor the header of the block
inside.  A block id holds both, and it is up to the code that uses it which one it compares.

* `TdmBlock.hash` and `hashesTo` return in `Except Panic`: a peer's block may decode with a nil
  `NcExtra`, and the source dereferences it.
* `TdmBlock.Hash` also writes `SeenCommitHash` when that is nil.  The field is in no hash, and
  `finalizeCommit` overwrites it before anything reads it, so the model leaves the write out.
* Cached hashes (`Part.hash`, `Commit.hash`) are recomputed.
-/

set_option autoImplicit false

namespace NeatPoS

/-! ## Part sets -/

/-- common-go's `NewBitArray`; nil if there are no bits. -/
def newBitArray (bits : Nat) : Option BitArray :=
  if bits = 0 then none else some (List.replicate bits false)

/-- common-go's `BitArray.SetIndex`, on a pointer that may be nil.  An index that is too large does
nothing. -/
def bitArraySetIndex (b : Option BitArray) (i : Nat) (v : Bool) : Option BitArray := b.map (·.set i v)

theorem getD_newBitArray (bits : Nat) : (newBitArray bits).getD [] = List.replicate bits false := by
  rw [newBitArray]
  split
  · rename_i h
    simp [h]
  · rfl

theorem getD_bitArraySetIndex (b : Option BitArray) (i : Nat) (v : Bool) :
    (bitArraySetIndex b i v).getD [] = (b.getD []).set i v := by
  cases b <;> rfl

/-- The first bits are set one after the other. -/
theorem getD_foldl_bitArraySetIndex {bits k : Nat} (h : k ≤ bits) :
    ((List.range k).foldl (fun b i => bitArraySetIndex b i true) (newBitArray bits)).getD [] =
      List.replicate k true ++ List.replicate (bits - k) false := by
  induction k with
  | zero => simp [getD_newBitArray]
  | succ k ih =>
    have hrest : List.replicate (bits - k) false = false :: List.replicate (bits - (k + 1)) false := by
      rw [← List.replicate_succ]
      congr 1
      omega
    rw [List.range_succ, List.foldl_append, List.foldl_cons, List.foldl_nil, getD_bitArraySetIndex,
      ih (by omega), hrest, List.set_append_right _ _ (by simp), List.length_replicate, Nat.sub_self,
      List.set_cons_zero, List.replicate_succ', List.append_assoc, List.singleton_append]

/-- `types.PartSet`. -/
structure PartSet where
  total : Nat
  hash : Bytes
  parts : List (Option Part)
  partsBitArray : Option BitArray
  count : Nat
  /-- There is a slot for each part. -/
  length_parts : parts.length = total
  /-- The bits say which of the parts are there. -/
  bits_eq : partsBitArray.getD [] = parts.map Option.isSome
  /-- The count is the number of the parts that are there. -/
  count_eq : count = parts.countP Option.isSome
deriving DecidableEq, Repr

/-- The largest length `make` grants for a slice of pointers. -/
def maxSliceLen : Nat := 2 ^ 45

/-- Why `AddPart` fails. -/
inductive PartSetError where
  /-- `Error part set unexpected index` -/
  | unexpectedIndex
  /-- `Error part set invalid proof` -/
  | invalidProof
deriving DecidableEq, Repr

namespace PartSet

/-- The part set without parts. -/
def empty (header : PartSetHeader) : PartSet where
  total := header.total
  hash := header.hash
  parts := List.replicate header.total none
  partsBitArray := newBitArray header.total
  count := 0
  length_parts := List.length_replicate
  bits_eq := by rw [getD_newBitArray, List.map_replicate, Option.isSome_none]
  count_eq := by
    rw [eq_comm, List.countP_eq_zero]
    intro p hp
    rw [(List.mem_replicate.1 hp).2]
    simp

/-- `NewPartSetFromHeader`. -/
def newPartSetFromHeader (header : PartSetHeader) : Except Panic PartSet :=
  if header.total > maxSliceLen then .error .makeSlice else .ok (empty header)

/-- The body of `NewPartSetFromData`, once the number of parts is known. -/
def cut (lib : Neatlib) (data : Bytes) (partSize total : Nat) : PartSet :=
  let chunks := (List.range total).map fun i => (data.drop (i * partSize)).take partSize
  let proofs := lib.proofsFromParts chunks
  { total, hash := proofs.1, count := total
    parts := (List.range total).map fun (i : Nat) =>
      some ⟨(i : Int), chunks.getD i [], proofs.2.getD i []⟩
    partsBitArray :=
      (List.range total).foldl (fun b i => bitArraySetIndex b i true) (newBitArray total)
    length_parts := by simp
    bits_eq := by
      rw [getD_foldl_bitArraySetIndex (Nat.le_refl _)]
      simp [Function.comp_def, List.map_const']
    count_eq := by simp [List.countP_map, Function.comp_def] }

/-- `NewPartSetFromData`. -/
def newPartSetFromData (lib : Neatlib) (data : Bytes) (partSize : Nat) : PartSet :=
  cut lib data partSize ((data.length + partSize - 1) / partSize)

/-- `PartSet.Header`, on a pointer that may be nil. -/
def header : Option PartSet → PartSetHeader
  | none => ⟨0, []⟩
  | some ps => ⟨ps.total, ps.hash⟩

/-- `PartSet.HasHeader`, on a pointer that may be nil. -/
def hasHeader (ps : Option PartSet) (h : PartSetHeader) : Bool :=
  match ps with
  | none => false
  | some ps => header (some ps) == h

/-- `PartSet.IsComplete`. -/
def isComplete (ps : PartSet) : Bool := ps.count == ps.total

/-- Putting a part into its slot, which must be free. -/
def putPart (ps : PartSet) (i : Nat) (part : Part) (hi : ps.parts[i]? = some none) : PartSet where
  total := ps.total
  hash := ps.hash
  parts := ps.parts.set i (some part)
  partsBitArray := bitArraySetIndex ps.partsBitArray i true
  count := ps.count + 1
  length_parts := by rw [List.length_set, ps.length_parts]
  bits_eq := by rw [getD_bitArraySetIndex, ps.bits_eq, List.map_set, Option.isSome_some]
  count_eq := by
    obtain ⟨hlt, hnone⟩ := List.getElem?_eq_some_iff.1 hi
    rw [ps.count_eq, List.countP_set hlt, hnone]
    simp

/-- `PartSet.AddPart`: the new part set, whether the part was added, and the error. -/
def addPart (lib : Neatlib) (ps : PartSet) (part : Part) (verify : Bool) :
    Except Panic (PartSet × Bool × Option PartSetError) :=
  if part.index ≥ ps.total then .ok (ps, false, some .unexpectedIndex)
  else if part.index < 0 then .error .indexOutOfRange
  else if hi : ps.parts[part.index.toNat]? = some none then
    if verify && !lib.proofVerify part.proof part.index ps.total part.bytes ps.hash then
      .ok (ps, false, some .invalidProof)
    else .ok (ps.putPart part.index.toNat part hi, true, none)
  else .ok (ps, false, none)

/-- What `GetReader` reads: the bytes of all parts, one after the other. -/
def getReader (ps : PartSet) : Bytes := ps.parts.flatMap fun p => (p.map (·.bytes)).getD []

theorem hasHeader_iff {ps : Option PartSet} {h : PartSetHeader} :
    hasHeader ps h = true ↔ ∃ p, ps = some p ∧ header ps = h := by
  cases ps with
  | none | some => simp [hasHeader]

theorem newPartSetFromHeader_eq_ok {h : PartSetHeader} {ps : PartSet}
    (hps : newPartSetFromHeader h = .ok ps) : header (some ps) = h := by
  rw [newPartSetFromHeader] at hps
  split at hps
  · simp at hps
  · rw [← Except.ok.inj hps, header, empty]

/-- A part that is added fills a slot that was free. -/
theorem addPart_eq_added {lib : Neatlib} {ps ps' : PartSet} {part : Part} {verify : Bool}
    {err : Option PartSetError} (h : ps.addPart lib part verify = .ok (ps', true, err)) :
    header (some ps') = header (some ps) ∧ ps.isComplete = false := by
  rw [addPart] at h
  split at h
  · simp at h
  split at h
  · simp at h
  split at h
  · rename_i hi
    split at h
    · simp at h
    simp only [Except.ok.injEq, Prod.mk.injEq] at h
    obtain ⟨rfl, -⟩ := h
    refine ⟨rfl, ?_⟩
    -- were the set complete, every slot would be taken
    rw [isComplete, beq_eq_false_iff_ne, ne_eq, ps.count_eq, ← ps.length_parts,
      List.countP_eq_length]
    intro hall
    have hmem := List.mem_of_getElem? hi
    exact absurd (hall none hmem) (by simp)
  · simp at h

end PartSet

/-! ## Consensus blocks -/

/-- `NeatconExtra.Hash`; nil when the validators' hash is missing. -/
def NeatconExtra.hash (lib : Neatlib) (te : NeatconExtra) : Bytes :=
  if te.validatorsHash.isEmpty then []
  else lib.extraMapHash
    { chainID := te.chainID, height := te.height, time := te.time, needToSave := te.needToSave
      needToBroadcast := te.needToBroadcast, epochNumber := te.epochNumber
      validators := te.validatorsHash, epochBytes := te.epochBytes }

/-- `params.IsMainChain`: the main network and the test network. -/
def isMainChain (chainID : String) : Bool := chainID == "neatio" || chainID == "testnet"

/-- Why `TdmBlock.ValidateBasic` fails. -/
inductive BasicError where
  /-- `Wrong Block.Header.ChainID. Expected %v, got %v` -/
  | wrongChainID (expected got : String)
  /-- `Wrong Block.Header.Height. Expected %v, got %v` -/
  | wrongHeight (expected got : Nat)
deriving DecidableEq, Repr

namespace TdmBlock

/-- `MakeBlock`, with the time that `time.Now` returns and without the part set. -/
def makeBlock (height : Nat) (chainID : String) (commit : Commit) (block : Block) (valHash : Bytes)
    (epochNumber : Nat) (epochBytes : Bytes) (tx3ProofData : List TX3ProofData)
    (now : Int) :
    TdmBlock where
  block := block
  ncExtra := some
    { chainID, height, time := now, needToSave := false, needToBroadcast := false, epochNumber
      seenCommitHash := [], validatorsHash := valHash, seenCommit := some commit, epochBytes }
  tx3ProofData := tx3ProofData

/-- `TdmBlock.MakePartSet`. -/
def makePartSet (lib : Neatlib) (b : TdmBlock) (partSize : Nat) : PartSet :=
  PartSet.newPartSetFromData lib (lib.blockToBytes b) partSize

/-- `TdmBlock.ValidateBasic`, against the extra data of the last block. -/
def validateBasic (b : TdmBlock) (last : NeatconExtra) : Except Panic (Option BasicError) :=
  match b.ncExtra with
  | none => .error .nilDereference
  | some te =>
    if te.chainID ≠ last.chainID then .ok (some (.wrongChainID last.chainID te.chainID))
    else if te.height ≠ last.height + 1 then .ok (some (.wrongHeight (last.height + 1) te.height))
    else .ok none

/-- `TdmBlock.Hash`, on a pointer that may be nil. -/
def hash (lib : Neatlib) : Option TdmBlock → Except Panic Bytes
  | none => .ok []
  | some b =>
    match b.ncExtra with
    | none => .error .nilDereference
    | some te => .ok (if te.seenCommit.isNone then [] else te.hash lib)

/-- `TdmBlock.HashesTo`: a nil block never hashes to anything, and nothing hashes to a nil hash. -/
def hashesTo (lib : Neatlib) (b : Option TdmBlock) (h : Bytes) : Except Panic Bool :=
  if h.isEmpty then .ok false
  else if b.isNone then .ok false
  else match hash lib b with
    | .error e => .error e
    | .ok bh => .ok (bh == h)

theorem hashesTo_eq_true {lib : Neatlib} {b : Option TdmBlock} {h : Bytes} :
    hashesTo lib b h = .ok true ↔ h ≠ [] ∧ b ≠ none ∧ hash lib b = .ok h := by
  rw [hashesTo]
  split
  · rename_i hh
    simp [List.isEmpty_iff.1 hh]
  rename_i hh
  have hne : h ≠ [] := by simpa using hh
  split
  · rename_i hb
    simp [Option.isNone_iff_eq_none.1 hb]
  rename_i hb
  have hb' : b ≠ none := by simpa using hb
  cases hx : hash lib b with
  | error => simp
  | ok => simp [hne, hb']

end TdmBlock

end NeatPoS
