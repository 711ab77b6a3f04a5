import NeatPoS.Lib.NodeForest
import NeatPoS.Types.Basic
import Mathlib.Data.Finset.Filter
import Mathlib.Data.Finset.Insert
import Mathlib.Data.Finset.Union

/-!
# The prune processor

`core/datareduction/prune_processor.go`: the states of old blocks are removed from the database while
the chain goes on.  The processor scans the account tries of old blocks, and enters their nodes in a
map with a 0.  From time to time it takes the lock of the chain, enters the nodes of the head's
account trie with a 1, and deletes all the nodes that have a 0.  The nodes of the head stay in the
map, with a 0 from then on.

The processor and the chain take turns in any order.  `Action` has what each of them does at a time:
the scan of a block, all that is done under the lock, the deletion of bodies, and the insertion of a
block, which happens under the same lock.  `Process` is a sequence of such actions (`passActions`).

A trie is the forest of its stored nodes.  The nodes that are inlined in their parents are not stored
on their own.  An account is too long to be inlined, so that in an account trie every node is stored.
The encodings of an account trie and of an inner trie never coincide, and the two kinds of nodes have
keys of their own.  There is one database, which stands for the disk and for what the cache of the
tries has not yet written to it.
-/

set_option autoImplicit false

namespace NeatPoS

namespace DataReduction

/-- `max_count_trie` -/
def maxCountTrie : Nat := 1000

/-- `max_remain_trie` -/
def maxRemainTrie : Nat := 1000

inductive NodeKind where
  | account
  | inner
deriving DecidableEq, Repr

/-- The key of a stored node: its hash, and what it is a node of. -/
structure NodeKey where
  kind : NodeKind
  hash : Bytes
deriving DecidableEq, Repr

/-- A storage, TX1, TX3, proxied or reward trie.  The empty forest is that of `emptyRoot`. -/
structure InnerTrie where
  nodes : NodeForest NodeKey Unit
  kind_eq : ∀ k ∈ nodes.hashes, k.kind = .inner

/-- A leaf of an account trie. -/
structure Account where
  /-- `GetKey` of the leaf: the address, or nothing if the preimage is not known. -/
  key : Bytes
  /-- `NeatAddressLength` is 32. -/
  length_key : key.length = 32 ∨ key = []
  root : InnerTrie
  tx1Root : InnerTrie
  tx3Root : InnerTrie
  proxiedRoot : InnerTrie
  rewardRoot : InnerTrie

/-- In the order in which `countBlockChainTrie` opens them. -/
def Account.innerTries (a : Account) : List InnerTrie :=
  [a.root, a.tx1Root, a.tx3Root, a.proxiedRoot, a.rewardRoot]

/-- The state of a block. -/
structure StateTrie where
  nodes : NodeForest NodeKey Account
  kind_eq : ∀ k ∈ nodes.hashes, k.kind = .account

/-- The nodes of the inner tries of all accounts. -/
def StateTrie.innerHashes (t : StateTrie) : List NodeKey :=
  t.nodes.values.flatMap fun a => a.innerTries.flatMap fun f => f.nodes.hashes

/-- All that is reachable from the state root. -/
def StateTrie.reachable (t : StateTrie) : List NodeKey := t.nodes.hashes ++ t.innerHashes

abbrev NodeCount := NodeKey → Option Nat

/-- `PruneProcessor`, with the chain and the database that it works on. -/
structure PruneProcessor where
  /-- The states of the blocks of the chain, by number.  The last one is that of the head. -/
  blocks : List StateTrie
  chainDb : Finset NodeKey
  /-- The blocks whose bodies are in the database. -/
  bodies : Finset Nat
  nodeCount : NodeCount

/-! ## Counting -/

/-- The two loops of `countTrie`. -/
def enter (markNoPrune : Bool) : NodeCount → NodeKey → NodeCount × Bool :=
  if markNoPrune then NodeForest.mark else NodeForest.scan

def countTrie {α : Type} (chainDb : Finset NodeKey) (markNoPrune : Bool)
    (processLeaf : NodeCount → α → NodeCount) (t : NodeForest NodeKey α) (nodeCount : NodeCount) :
    NodeCount :=
  (t.walk (fun k => decide (k ∈ chainDb)) (enter markNoPrune) processLeaf nodeCount).1

/-- What `countTrie` does at a leaf of the account trie.  It is meant for addresses of 20 bytes. -/
def processLeaf (chainDb : Finset NodeKey) (markNoPrune : Bool) (nodeCount : NodeCount)
    (account : Account) : NodeCount :=
  if account.key.length = 20 then
    account.innerTries.foldl
      (fun nc f => countTrie chainDb markNoPrune (fun nc _ => nc) f.nodes nc) nodeCount
  else nodeCount

/-- A root that is missing ends the walk at once, as the error of `OpenTrie` does. -/
def countBlockChainTrie (chainDb : Finset NodeKey) (root : StateTrie) (markNoPrune : Bool)
    (nodeCount : NodeCount) : NodeCount :=
  countTrie chainDb markNoPrune (processLeaf chainDb markNoPrune) root.nodes nodeCount

/-! ## Pruning -/

namespace PruneProcessor

/-- The state of `CurrentBlock`. -/
def head (p : PruneProcessor) : StateTrie := p.blocks.getLastD ⟨.nil, by simp [NodeForest.hashes]⟩

def pruneData (p : PruneProcessor) : PruneProcessor :=
  { p with
    chainDb := p.chainDb.filter fun k => p.nodeCount k ≠ some 0
    nodeCount := fun k => if p.nodeCount k = some 0 then none else (p.nodeCount k).map fun _ => 0 }

/-- What is done under the lock: the head is marked, and `pruneData`. -/
def prune (p : PruneProcessor) : PruneProcessor :=
  pruneData { p with nodeCount := countBlockChainTrie p.chainDb p.head true p.nodeCount }

/-- After the scan of a block. -/
def counted (p : PruneProcessor) (root : StateTrie) : PruneProcessor :=
  { p with nodeCount := countBlockChainTrie p.chainDb root false p.nodeCount }

/-- After the loop over the bodies from `pruneBodyStart` to `i`, which deletes body `i` each time. -/
def deleteBodies (p : PruneProcessor) (pruneBodyStart i : Nat) : PruneProcessor :=
  { p with bodies := if pruneBodyStart ≤ i then p.bodies.erase i else p.bodies }

/-- After a block with this state has become the head, and these nodes have been written. -/
def inserted (p : PruneProcessor) (state : StateTrie) (written : Finset NodeKey) : PruneProcessor :=
  { p with
    blocks := p.blocks ++ [state]
    chainDb := p.chainDb ∪ written
    bodies := Insert.insert p.blocks.length p.bodies }

end PruneProcessor

/-- What the chain or the processor does at a time. -/
inductive Action where
  | insert (state : StateTrie) (written : Finset NodeKey)
  /-- The state of block `i` is scanned. -/
  | count (i : Nat)
  | prune
  | deleteBodies (pruneBodyStart i : Nat)

/-- One action.  A block that is not there has no header, and the processor crashes. -/
def Action.exec (p : PruneProcessor) : Action → Except Panic PruneProcessor
  | .insert state written => .ok (p.inserted state written)
  | .count i =>
    match p.blocks[i]? with
    | none => .error .nilDereference
    | some root => .ok (p.counted root)
  | .prune => .ok p.prune
  | .deleteBodies pruneBodyStart i => .ok (p.deleteBodies pruneBodyStart i)

/-- Actions one after the other. -/
def run (p : PruneProcessor) (acts : List Action) : Except Panic PruneProcessor :=
  acts.foldlM Action.exec p

/-! ## The processor's actions -/

/-- `calculateScan`, in `uint64`. -/
def calculateScan (scan latestBlockHeight : Nat) : Bool × Nat × Nat :=
  let unscanHeight := (latestBlockHeight + 2 ^ 64 - scan) % 2 ^ 64
  let scanTo := if maxRemainTrie < unscanHeight then
      (latestBlockHeight + 2 ^ 64 - maxRemainTrie) % 2 ^ 64
    else 0
  (decide (scanTo ≠ 0), scan, scanTo)

/-- Where a scan stops to prune. -/
def prunesAt (scanEnd i : Nat) : Bool := i % maxCountTrie = maxCountTrie - 1 ∨ i = scanEnd

/-- The loop over the blocks, for `n` blocks from `i` on. -/
def scanActions (pruneBodyData : Bool) (scanEnd : Nat) : Nat → Nat → Nat → List Action
  | 0, _, _ => []
  | n + 1, i, pruneBodyStart =>
    .count i ::
      if prunesAt scanEnd i then
        .prune :: (if pruneBodyData then
          .deleteBodies pruneBodyStart i :: scanActions pruneBodyData scanEnd n (i + 1) i
        else scanActions pruneBodyData scanEnd n (i + 1) pruneBodyStart)
      else scanActions pruneBodyData scanEnd n (i + 1) pruneBodyStart

/-- Where the deletion of bodies begins. -/
def firstBody (scanNumber pruneNumber : Nat) : Nat :=
  if 0 < pruneNumber then pruneNumber + 1 else scanNumber

/-- The blocks that are scanned again, since the map is not kept when the node is restarted. -/
def recount (scanNumber pruneNumber : Nat) : List Nat :=
  if 0 < pruneNumber then List.range' (pruneNumber + 1) (scanNumber - pruneNumber) else []

/-- One round of the loop of `Process`, with the bounds of `calculateScan`. -/
def passActions (pruneBodyData : Bool) (scanNumber pruneNumber blockNumber : Nat) : List Action :=
  let (needScan, scanStart, scanEnd) := calculateScan scanNumber blockNumber
  if needScan then
    (recount scanNumber pruneNumber).map .count ++
      scanActions pruneBodyData scanEnd (scanEnd + 2 - scanStart) scanStart
        (firstBody scanNumber pruneNumber)
  else []

end DataReduction

end NeatPoS
