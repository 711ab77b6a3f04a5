import NeatPoS.Core.BlockChain
import Mathlib.Logic.Function.Basic

/-!
# Writing blocks

`writeBlockWithState` (`core/blockchain.go`) with `insert` and `reorg`: how a block becomes the head
of the local chain.  Blocks arrive from consensus and from other nodes, and the engine has agreed on
each of them before, so that one expects the head to move forward only.

Nothing here enforces it.  A block that is known already becomes the head again, whatever has been
written after it; and since the engine is NeatPoS, a block whose parent is not the head leads to a
reorganisation, whatever its height.  So everything depends on which blocks get here.  `Advances` is
what a call must be like for the chain to move forward, and `Advances.final` and `writeAll_final`
say that it then does, for one call and for any number of them.

The total difficulty of a block is written together with the block and is not told apart from it.
Errors of the database are inputs.  Of a block, only its hash, its number and the hash of its parent
matter.
-/

set_option autoImplicit false

namespace NeatPoS

/-- What `writeBlockWithState` looks at in a block. -/
structure ChainBlock where
  hash : Bytes
  parentHash : Bytes
  number : Nat
deriving DecidableEq, Repr

/-- The part of the database that says which chain is the local one. -/
structure ChainDb where
  /-- The blocks that are stored, by hash. -/
  block : Bytes → Option ChainBlock
  /-- `ReadCanonicalHash` -/
  canonicalHash : Nat → Option Bytes
  currentBlock : ChainBlock

namespace ChainDb

/-- `GetBlock`, from the database.  The cache that it asks first does not compare the number; for a
block whose number is the one after its parent's, as `verifyCascadingFields` checks, that makes no
difference. -/
def getBlock (bc : ChainDb) (hash : Bytes) (number : Nat) : Option ChainBlock :=
  (bc.block hash).filter fun b => b.number == number

/-- `GetBlock(block.ParentHash(), block.NumberU64()-1)`. -/
def getParent (bc : ChainDb) (b : ChainBlock) : Option ChainBlock :=
  bc.getBlock b.parentHash (prevU64 b.number)

/-- `insert`, less the callbacks. -/
def insert (bc : ChainDb) (b : ChainBlock) : ChainDb :=
  { bc with
    canonicalHash := Function.update bc.canonicalHash b.number (some b.hash)
    currentBlock := b }

/-- `rawdb.WriteBlock`. -/
def writeBlock (bc : ChainDb) (b : ChainBlock) : ChainDb :=
  { bc with block := Function.update bc.block b.hash (some b) }

/-! ## Reorganisation -/

/-- Goes back from a block to the given height, and collects the blocks on the way.  Parents have
smaller numbers, so that the number of the block is enough fuel. -/
def reduce (bc : ChainDb) (number fuel : Nat) (b : ChainBlock) (chain : List ChainBlock) :
    Option (ChainBlock × List ChainBlock) :=
  if b.number = number then some (b, chain)
  else
    match fuel, bc.getParent b with
    | fuel + 1, some parent => bc.reduce number fuel parent (chain ++ [b])
    | _, _ => none

/-- Goes back from two blocks at once until they meet, and collects the new blocks. -/
def reduceBoth (bc : ChainDb) (fuel : Nat) (oldBlock newBlock : ChainBlock)
    (newChain : List ChainBlock) : Option (List ChainBlock) :=
  if oldBlock.hash = newBlock.hash then some newChain
  else
    match fuel, bc.getParent oldBlock, bc.getParent newBlock with
    | fuel + 1, some oldParent, some newParent =>
      bc.reduceBoth fuel oldParent newParent (newChain ++ [newBlock])
    | _, _, _ => none

/-- The blocks that `reorg` inserts, the last one first; nothing if one of the chains is broken. -/
def newChain (bc : ChainDb) (oldBlock newBlock : ChainBlock) : Option (List ChainBlock) :=
  if newBlock.number < oldBlock.number then do
    let (oldBlock, _) ← bc.reduce newBlock.number oldBlock.number oldBlock []
    bc.reduceBoth oldBlock.number oldBlock newBlock []
  else do
    let (newBlock, chain) ← bc.reduce oldBlock.number newBlock.number newBlock []
    bc.reduceBoth oldBlock.number oldBlock newBlock chain

/-- `reorg`. -/
def reorg (bc : ChainDb) (oldBlock newBlock : ChainBlock) : Option ChainDb :=
  (bc.newChain oldBlock newBlock).map fun chain => chain.foldr (fun b bc => bc.insert b) bc

end ChainDb

/-! ## One call -/

/-- A call of `writeBlockWithState`: the block, and how the database answers. -/
structure Write where
  block : ChainBlock
  /-- The state of the block is in the database. -/
  hasState : Bool
  /-- The total difficulty cannot be written. -/
  tdFails : Bool
  /-- The state cannot be committed. -/
  commitFails : Bool
  /-- The batch of receipts and lookup entries cannot be written. -/
  batchFails : Bool
deriving DecidableEq, Repr

namespace ChainDb

/-- `HasBlockAndState`. -/
def hasBlockAndState (bc : ChainDb) (w : Write) : Bool :=
  (bc.getBlock w.block.hash w.block.number).isSome && w.hasState

/-- `writeBlockWithState`, with the engine NeatPoS. -/
def writeBlockWithState (bc : ChainDb) (w : Write) : ChainDb :=
  if bc.hasBlockAndState w then bc.insert w.block
  else if (bc.getParent w.block).isNone || w.tdFails then bc
  else
    let currentBlock := bc.currentBlock
    let bc := bc.writeBlock w.block
    if w.commitFails then bc
    else if w.block.parentHash = currentBlock.hash then
      if w.batchFails then bc else bc.insert w.block
    else
      match bc.reorg currentBlock w.block with
      | none => bc
      | some bc => if w.batchFails then bc else bc.insert w.block

/-! ## When the chain moves forward -/

/-- What was canonical up to the head is so still, and the head has not gone back. -/
structure Final (bc bc' : ChainDb) : Prop where
  number_le : bc.currentBlock.number ≤ bc'.currentBlock.number
  canonicalHash : ∀ n, n ≤ bc.currentBlock.number → bc'.canonicalHash n = bc.canonicalHash n

/-- The head is the canonical block of its height. -/
def HeadCanonical (bc : ChainDb) : Prop :=
  bc.canonicalHash bc.currentBlock.number = some bc.currentBlock.hash

/-- `b` is `a` or comes after it.  Block zero has no parent. -/
inductive Descends (bc : ChainDb) (a : ChainBlock) : ChainBlock → Prop
  | refl : Descends bc a a
  | step {b p : ChainBlock} (hb : b.number ≠ 0) (h : bc.getParent b = some p)
      (hp : Descends bc a p) : Descends bc a b

/-- What a call must be like for the chain to move forward: a block that is known, with its state,
is above the head or is the head; any other block is refused, or else descends from the head. -/
def Advances (bc : ChainDb) (w : Write) : Prop :=
  if bc.hasBlockAndState w then
    bc.currentBlock.number < w.block.number ∨ w.block = bc.currentBlock
  else
    bc.getParent w.block = none ∨ w.tdFails = true ∨ w.commitFails = true ∨
      (bc.writeBlock w.block).Descends bc.currentBlock w.block

variable {bc bc' bc'' : ChainDb} {a b : ChainBlock} {w : Write}

theorem Final.refl (bc : ChainDb) : Final bc bc := ⟨Nat.le_refl _, fun _ _ => rfl⟩

theorem Final.trans (h : Final bc bc') (h' : Final bc' bc'') : Final bc bc'' where
  number_le := Nat.le_trans h.number_le h'.number_le
  canonicalHash := fun n hn =>
    (h'.canonicalHash n (Nat.le_trans hn h.number_le)).trans (h.canonicalHash n hn)

/-- Inserting a block above the head, or the head itself, changes nothing up to the head. -/
theorem Final.insert (h : Final bc bc') (hc : bc.HeadCanonical)
    (hb : bc.currentBlock.number < b.number ∨ b = bc.currentBlock) :
    Final bc (bc'.insert b) where
  number_le := by
    rcases hb with hb | rfl
    · exact Nat.le_of_lt hb
    · exact Nat.le_refl _
  canonicalHash := by
    intro n hn
    rcases hb with hb | rfl
    · rw [← h.canonicalHash n hn]
      exact Function.update_of_ne (by omega) _ _
    by_cases hnum : n = bc.currentBlock.number
    · subst hnum
      exact (Function.update_self _ _ _).trans hc.symm
    · rw [← h.canonicalHash n hn]
      exact Function.update_of_ne hnum _ _

theorem headCanonical_insert (bc : ChainDb) (b : ChainBlock) : (bc.insert b).HeadCanonical :=
  Function.update_self _ _ _

/-! ### Going back along a chain -/

theorem number_of_getParent (h : bc.getParent b = some a) : a.number = prevU64 b.number := by
  rw [getParent, getBlock, Option.filter_eq_some_iff] at h
  simpa using h.2

theorem prevU64_lt {n : Nat} (hn : n ≠ 0) : prevU64 n < n := by
  unfold prevU64
  omega

/-- A descendant is above, unless it is the block itself. -/
theorem Descends.above (h : bc.Descends a b) : a.number < b.number ∨ b = a := by
  induction h with
  | refl => exact .inr rfl
  | @step b p hb hparent _ ih =>
    have hlt : p.number < b.number := number_of_getParent hparent ▸ prevU64_lt hb
    rcases ih with ih | rfl
    · exact .inl (Nat.lt_trans ih hlt)
    · exact .inl hlt

/-- Going back from a descendant of `a` to the height of `a` leads to `a`, and every block collected
on the way is above it. -/
theorem Descends.reduce (h : bc.Descends a b) : ∀ fuel chain, b.number ≤ fuel →
    (∀ c ∈ chain, a.number < c.number) →
    ∃ chain', bc.reduce a.number fuel b chain = some (a, chain') ∧
      ∀ c ∈ chain', a.number < c.number := by
  induction h with
  | refl =>
    intro fuel chain _ hchain
    exact ⟨chain, by rw [ChainDb.reduce.eq_def, if_pos rfl], hchain⟩
  | @step b p hb hparent hp ih =>
    intro fuel chain hfuel hchain
    have hlt : p.number < b.number := number_of_getParent hparent ▸ prevU64_lt hb
    have hle : a.number < b.number := by
      rcases hp.above with hp | rfl
      · exact Nat.lt_trans hp hlt
      · exact hlt
    obtain ⟨fuel, rfl⟩ : ∃ k, fuel = k + 1 := ⟨fuel - 1, by omega⟩
    have hchain' : ∀ c ∈ chain ++ [b], a.number < c.number := by
      intro c hc
      rcases List.mem_append.1 hc with hc | hc
      · exact hchain c hc
      · exact List.mem_singleton.1 hc ▸ hle
    obtain ⟨chain', hreduce, habove⟩ := ih fuel (chain ++ [b]) (by omega) hchain'
    refine ⟨chain', ?_, habove⟩
    rw [ChainDb.reduce.eq_def, if_neg (Nat.ne_of_gt hle), hparent]
    exact hreduce

/-- A reorganisation towards a descendant of the old head inserts blocks above that head only. -/
theorem Descends.newChain (h : bc.Descends a b) :
    ∃ chain, bc.newChain a b = some chain ∧ ∀ c ∈ chain, a.number < c.number := by
  have hle : a.number ≤ b.number := by
    rcases h.above with h | rfl
    · exact Nat.le_of_lt h
    · exact Nat.le_refl _
  obtain ⟨chain, hreduce, habove⟩ := h.reduce b.number [] (Nat.le_refl _) (by simp)
  refine ⟨chain, ?_, habove⟩
  rw [ChainDb.newChain, if_neg (Nat.not_lt.2 hle), hreduce]
  show bc.reduceBoth _ _ _ _ = _
  rw [reduceBoth.eq_def, if_pos rfl]

/-- Inserting blocks above the head, one after another. -/
theorem Final.foldr_insert (h : Final bc bc') (hc : bc.HeadCanonical) (chain : List ChainBlock)
    (hchain : ∀ c ∈ chain, bc.currentBlock.number < c.number) :
    Final bc (chain.foldr (fun b bc => bc.insert b) bc') := by
  induction chain with
  | nil => exact h
  | cons b _ ih =>
    have hrest := ih fun c hmem => hchain c (List.mem_cons_of_mem _ hmem)
    exact hrest.insert hc (.inl (hchain b List.mem_cons_self))

/-! ### One call, and any number of them -/

/-- A call keeps the head canonical, whatever the block. -/
theorem HeadCanonical.writeBlockWithState (h : bc.HeadCanonical) (w : Write) :
    (bc.writeBlockWithState w).HeadCanonical := by
  have hfold (bc' : ChainDb) (h' : bc'.HeadCanonical) (chain : List ChainBlock) :
      (chain.foldr (fun b bc => bc.insert b) bc').HeadCanonical := by
    cases chain with
    | nil => exact h'
    | cons b => exact headCanonical_insert _ b
  unfold ChainDb.writeBlockWithState
  split
  · exact headCanonical_insert _ _
  split
  · exact h
  show HeadCanonical (if _ then _ else _)
  split
  · exact h
  split
  · split
    · exact h
    · exact headCanonical_insert _ _
  · split
    · exact h
    rename_i bc' hreorg
    split
    · obtain ⟨chain, _, rfl⟩ := Option.map_eq_some_iff.1 hreorg
      exact hfold (bc.writeBlock w.block) h chain
    · exact headCanonical_insert _ _

/-- **One call.**  The chain moves forward if the block comes after the head. -/
theorem Advances.final (hc : bc.HeadCanonical) (h : bc.Advances w) :
    Final bc (bc.writeBlockWithState w) := by
  unfold Advances at h
  unfold ChainDb.writeBlockWithState
  by_cases hknown : bc.hasBlockAndState w = true
  · rw [if_pos hknown] at h ⊢
    exact (Final.refl bc).insert hc h
  rw [if_neg hknown] at h ⊢
  by_cases hrefused : ((bc.getParent w.block).isNone || w.tdFails) = true
  · rw [if_pos hrefused]
    exact Final.refl bc
  rw [if_neg hrefused]
  have hwritten : Final bc (bc.writeBlock w.block) := ⟨Nat.le_refl _, fun _ _ => rfl⟩
  show Final bc (if _ then _ else _)
  by_cases hcommit : w.commitFails = true
  · rw [if_pos hcommit]
    exact hwritten
  rw [if_neg hcommit]
  have hdesc : (bc.writeBlock w.block).Descends bc.currentBlock w.block := by
    rcases h with h | h | h | h
    · simp [h] at hrefused
    · simp [h] at hrefused
    · exact absurd h hcommit
    · exact h
  split
  · split
    · exact hwritten
    · exact hwritten.insert hc hdesc.above
  · obtain ⟨chain, hnew, habove⟩ := hdesc.newChain
    have hfold := hwritten.foldr_insert hc chain habove
    rw [reorg, hnew]
    show Final bc (if _ then _ else _)
    split
    · exact hfold
    · exact hfold.insert hc hdesc.above

/-- One call after another. -/
def writeAll (bc : ChainDb) (ws : List Write) : ChainDb := ws.foldl writeBlockWithState bc

/-- Every call advances the chain it finds. -/
def AllAdvance (bc : ChainDb) : List Write → Prop
  | [] => True
  | w :: ws => bc.Advances w ∧ (bc.writeBlockWithState w).AllAdvance ws

theorem AllAdvance.final (ws : List Write) :
    ∀ {bc : ChainDb}, bc.HeadCanonical → bc.AllAdvance ws → Final bc (bc.writeAll ws) := by
  induction ws with
  | nil => exact fun _ _ => Final.refl _
  | cons w _ ih =>
    intro bc hc h
    exact (h.1.final hc).trans (ih (hc.writeBlockWithState w) h.2)

theorem HeadCanonical.writeAll (ws : List Write) :
    ∀ {bc : ChainDb}, bc.HeadCanonical → (bc.writeAll ws).HeadCanonical := by
  induction ws with
  | nil => exact id
  | cons w _ ih => exact fun hc => ih (hc.writeBlockWithState w)

theorem AllAdvance.of_append (ws ws' : List Write) :
    ∀ {bc : ChainDb}, bc.AllAdvance (ws ++ ws') → (bc.writeAll ws).AllAdvance ws' := by
  induction ws with
  | nil => exact id
  | cons _ _ ih => exact fun h => ih h.2

/-- **Finality.**  If every call brings a block that comes after the head, then between any two
moments of the run the head does not go back, and no canonical hash up to the head changes. -/
theorem writeAll_final (hc : bc.HeadCanonical) (ws ws' : List Write)
    (h : bc.AllAdvance (ws ++ ws')) :
    (bc.writeAll ws).Final (bc.writeAll (ws ++ ws')) := by
  have hsplit : bc.writeAll (ws ++ ws') = (bc.writeAll ws).writeAll ws' := List.foldl_append
  rw [hsplit]
  exact (AllAdvance.of_append ws ws' h).final ws' (hc.writeAll ws)

/-! ### Two blocks and a third -/

namespace ThreeBlocks

/-- The database of a new node. -/
def genesis : ChainDb where
  block := fun hash => if hash = [0] then some ⟨[0], [], 0⟩ else none
  canonicalHash := fun n => if n = 0 then some [0] else none
  currentBlock := ⟨[0], [], 0⟩

def write (hash parentHash : Bytes) (number : Nat) (hasState : Bool) : Write where
  block := ⟨hash, parentHash, number⟩
  hasState := hasState
  tdFails := false
  commitFails := false
  batchFails := false

/-- Blocks one and two, in order. -/
theorem writeAll_final_two :
    ((genesis.writeAll [write [1] [0] 1 false]).Final
      (genesis.writeAll [write [1] [0] 1 false, write [2] [1] 2 false])) ∧
    (genesis.writeAll [write [1] [0] 1 false, write [2] [1] 2 false]).currentBlock.number = 2 := by
  have hgenesis : genesis.HeadCanonical := rfl
  have hone : (genesis.writeBlock ⟨[1], [0], 1⟩).Descends ⟨[0], [], 0⟩ ⟨[1], [0], 1⟩ :=
    .step (by decide) rfl .refl
  have htwo : ((genesis.writeBlockWithState (write [1] [0] 1 false)).writeBlock
      ⟨[2], [1], 2⟩).Descends ⟨[1], [0], 1⟩ ⟨[2], [1], 2⟩ :=
    .step (by decide) rfl .refl
  refine ⟨writeAll_final hgenesis [write [1] [0] 1 false] [write [2] [1] 2 false]
    ⟨?_, ?_, trivial⟩, rfl⟩
  · exact .inr (.inr (.inr hone))
  · exact .inr (.inr (.inr htwo))

/-- When block one comes again, the head goes back to it; and so it does when another block one
comes, which then takes its place. -/
theorem head_goes_back :
    let two := genesis.writeAll [write [1] [0] 1 false, write [2] [1] 2 false]
    two.currentBlock.number = 2 ∧ two.canonicalHash 1 = some [1] ∧
    (two.writeBlockWithState (write [1] [0] 1 true)).currentBlock.number = 1 ∧
    (two.writeBlockWithState (write [3] [0] 1 false)).currentBlock.number = 1 ∧
    (two.writeBlockWithState (write [3] [0] 1 false)).canonicalHash 1 = some [3] := by
  decide

end ThreeBlocks

end ChainDb

end NeatPoS
