import NeatPoS.Lib.UndoLog
import NeatPoS.Core.StateObject

/-!
# The state database with its journal

`statedb.go` and `journal.go`, over the state objects of `Core/StateObject.lean`.

An account that is not cached is read from the trie (`object`); that it is cached from then on makes
no difference, because the trie changes only in `Finalise` and `Commit`, and there only at the
objects that are dirty.  An object is dirty when its address is in `stateObjectsDirty`.  It gets
there through the callback `onDirty` of the object, and the two are not the same: an object whose
touch was undone, or that was committed, is not dirty and will not be marked again, and one that
comes from `Copy` is dirty and still has its callback.

Three kinds of changes do not follow the pattern of the setters.

* `AddTX1` and `AddTX3` enter a hash in a map and journal the hash, whether or not it was there;
  they do not call `onDirty`, and undoing removes the hash.
* `touch` journals whether the object had been touched, and whether its callback was gone.
* The four sets of addresses and the block reward of a side chain are not journaled at all.

`Finalise` and `Commit` go through a Go map, so where two objects would make them panic, which of
the panics is seen is not determined; the model prefers the nil dereference.  Errors of the
underlying database are left out.
-/

set_option autoImplicit false

namespace NeatPoS

/-! ## The journal -/

/-- `journalEntry`. -/
inductive JournalEntry where
  | createObjectChange (account : Address)
  /-- `prev` is kept as a pointer, which nothing else uses meanwhile. -/
  | resetObjectChange (account : Address) (prev : StateObject)
  | suicideChange (account : Address) (prev : Bool) (prevbalance : Int)
  | touchChange (account : Address) (prev prevDirty : Bool)
  /-- `addTX1Change`, `addTX3Change` -/
  | addTXChange (kind : TxKind) (account : Address) (txHash : TxHash)
  /-- The other changes of an account, from `balanceChange` to `codeChange`, hold a previous
  value. -/
  | change (account : Address) (prev : Edit)
  | refundChange (prev : Nat)
  | addLogChange (txhash : TxHash)
  | addPreimageChange (hash : TxHash)

/-- `validRevisions` and `nextRevisionId`. -/
structure Revisions where
  valid : List (Nat × Nat)
  nextRevisionId : Nat
  /-- `Snapshot` appends a larger id than all before. -/
  sorted : valid.Pairwise fun r r' => r.1 < r'.1
  lt_next : ∀ r ∈ valid, r.1 < nextRevisionId

namespace Revisions

/-- No snapshot is valid; the ids go on from `n`. -/
def none (n : Nat) : Revisions := ⟨[], n, List.Pairwise.nil, by simp⟩

/-- The part of `Snapshot` that is about revisions. -/
def push (r : Revisions) (journalIndex : Nat) : Revisions where
  valid := r.valid ++ [(r.nextRevisionId, journalIndex)]
  nextRevisionId := r.nextRevisionId + 1
  sorted := by
    rw [List.pairwise_append]
    refine ⟨r.sorted, List.pairwise_singleton _ _, fun x hx y hy => ?_⟩
    rw [List.mem_singleton.mp hy]
    exact r.lt_next x hx
  lt_next := by
    intro x hx
    rcases List.mem_append.mp hx with hx | hx
    · exact Nat.lt_succ_of_lt (r.lt_next x hx)
    · rw [List.mem_singleton.mp hx]
      exact Nat.lt_succ_self _

/-- `sort.Search` for an id: the first revision whose id is not smaller. -/
def search (r : Revisions) (revid : Nat) : Nat := r.valid.findIdx fun x => decide (revid ≤ x.1)

/-- `validRevisions[:idx]`. -/
def take (r : Revisions) (idx : Nat) : Revisions where
  valid := r.valid.take idx
  nextRevisionId := r.nextRevisionId
  sorted := r.sorted.sublist (List.take_sublist _ _)
  lt_next := fun x hx => r.lt_next x (List.mem_of_mem_take hx)

end Revisions

/-! ## The database -/

/-- The sets of addresses that are kept beside the accounts. -/
inductive SetName where
  | delegateRefundSet
  | rewardSet
  | candidateSet
  | bannedSet
deriving DecidableEq, Repr

/-- `CachedSet.write` in `Commit`, which also drops the dirty flag. -/
def CachedSet.commit (c : CachedSet) : CachedSet := { c.write with dirty := false }

/-- `sideChainRewardPerBlock`, its flag, and what the trie holds of it. -/
structure CachedAmount where
  cache : Option Int
  dirty : Bool
  stored : Option Int
deriving DecidableEq, Repr

namespace CachedAmount

/-- `GetSideChainRewardPerBlock`. -/
def get (c : CachedAmount) : Int := c.cache.getD (c.stored.getD 0)

/-- `commitSideChainRewardPerBlock` finds a negative amount. -/
def unencodable (c : CachedAmount) : Bool := c.dirty && decide (c.cache.getD 0 < 0)

/-- What `Finalise` does with it.  A nil pointer is encoded as zero. -/
def write (c : CachedAmount) : CachedAmount :=
  if c.dirty then { c with stored := some (c.cache.getD 0) } else c

/-- What `Commit` does with it. -/
def commit (c : CachedAmount) : CachedAmount := { c.write with dirty := false }

end CachedAmount

/-- `types.Log`, with the fields that `AddLog` fills in. -/
structure Log where
  content : Bytes
  txHash : TxHash
  blockHash : TxHash
  txIndex : Nat
  index : Nat
deriving DecidableEq, Repr

/-- The part of the database that is about the transaction that is being executed. -/
structure TxContext where
  thash : TxHash
  bhash : TxHash
  txIndex : Nat
  logs : Finmap fun _ : TxHash => List Log
  logSize : Nat
  preimages : Finmap fun _ : TxHash => Bytes
  refund : Nat

/-- `common.Hash{}`. -/
def zeroHash : TxHash := List.replicate 32 0

/-- The context of a new database. -/
def TxContext.new : TxContext := ⟨zeroHash, zeroHash, 0, ∅, 0, ∅, 0⟩

/-- The contents of the state trie. -/
@[ext]
structure StateTrie where
  accounts : Address → Option StoredAccount
  sets : SetName → Option (Finset Address)
  sideChainRewardPerBlock : Option Int

/-- Nothing is stored yet. -/
def StateTrie.empty : StateTrie := ⟨fun _ => none, fun _ => none, none⟩

/-- `state.StateDB`; the newest entry of the journal is the first one. -/
structure JournaledDB where
  /-- The accounts in the trie. -/
  accounts : Address → Option StoredAccount
  stateObjects : Address → Option StateObject
  stateObjectsDirty : Finset Address
  sets : SetName → CachedSet
  sideChainRewardPerBlock : CachedAmount
  context : TxContext
  journal : List JournalEntry
  revisions : Revisions

/-- `0x0000000000000000000000000000000000000003`. -/
def ripemd : Address := List.replicate 19 0 ++ [3]

namespace JournaledDB

/-- `New`, at the root of a trie. -/
def new (root : StateTrie) : JournaledDB where
  accounts := root.accounts
  stateObjects := fun _ => none
  stateObjectsDirty := ∅
  sets := fun n => ⟨∅, root.sets n, false⟩
  sideChainRewardPerBlock := ⟨none, false, root.sideChainRewardPerBlock⟩
  context := .new
  journal := []
  revisions := .none 0

/-- The contents of the trie. -/
def trie (s : JournaledDB) : StateTrie :=
  ⟨s.accounts, fun n => (s.sets n).stored, s.sideChainRewardPerBlock.stored⟩

/-- `getStateObject`. -/
def object (s : JournaledDB) (addr : Address) : Option StateObject :=
  match s.stateObjects addr with
  | some o => if o.deleted then none else some o
  | none => (s.accounts addr).map StateObject.load

/-- `setStateObject`. -/
def setStateObject (s : JournaledDB) (addr : Address) (o : StateObject) : JournaledDB :=
  { s with stateObjects := Function.update s.stateObjects addr (some o) }

/-- Stores what a setter has made of an object, and calls `onDirty` if it is still there. -/
def mark (s : JournaledDB) (addr : Address) (o : StateObject) : JournaledDB :=
  { s with
    stateObjects := Function.update s.stateObjects addr (some { o with onDirty := false })
    stateObjectsDirty :=
      if o.onDirty then insert addr s.stateObjectsDirty else s.stateObjectsDirty }

/-- Appends to the journal. -/
def log (s : JournaledDB) (e : JournalEntry) : JournaledDB := { s with journal := e :: s.journal }

/-- The new object of `createObject` is stored and dirty. -/
def putNew (s : JournaledDB) (addr : Address) (o : StateObject) : JournaledDB :=
  { s with
    stateObjects := Function.update s.stateObjects addr (some o)
    stateObjectsDirty := insert addr s.stateObjectsDirty }

/-- `GetOrNewStateObject`. -/
def getOrNewStateObject (s : JournaledDB) (addr : Address) : JournaledDB :=
  match s.object addr with
  | some _ => s
  | none => (s.log (.createObjectChange addr)).putNew addr .new

/-- `CreateAccount`: a new object over an old one takes over its balance only. -/
def createAccount (s : JournaledDB) (addr : Address) : JournaledDB :=
  match s.object addr with
  | none => (s.log (.createObjectChange addr)).putNew addr .new
  | some prev =>
    (s.log (.resetObjectChange addr prev)).putNew addr
      ((Edit.amount .balance (prev.data.amount .balance)).apply .new)

/-- The upper-case setters of an object. -/
def edit (s : JournaledDB) (addr : Address) (e : Edit) : JournaledDB :=
  match s.object addr with
  | none => s
  | some o => (s.log (.change addr (e.prev o))).mark addr (e.apply o)

/-- `touch`. -/
def touch (s : JournaledDB) (addr : Address) : JournaledDB :=
  match s.object addr with
  | none => s
  | some o =>
    (s.log (.touchChange addr o.touched !o.onDirty)).mark addr { o with touched := true }

/-- `AddTX1` and `AddTX3` of an object. -/
def markTX (s : JournaledDB) (kind : TxKind) (addr : Address) (txHash : TxHash) : JournaledDB :=
  match s.object addr with
  | none => s
  | some o =>
    (s.log (.addTXChange kind addr txHash)).setStateObject addr
      (o.setPending kind (insert txHash (o.tx kind).dirty))

/-- `Suicide`. -/
def suicide (s : JournaledDB) (addr : Address) : JournaledDB :=
  match s.object addr with
  | none => s
  | some o =>
    (s.log (.suicideChange addr o.suicided (o.data.amount .balance))).mark addr
      { (Edit.amount .balance 0).apply o with suicided := true }

/-! ### Snapshots -/

/-- The `undo` of an entry that takes it for granted that the object is there. -/
def undoObject (s : JournaledDB) (addr : Address) (f : StateObject → JournaledDB) :
    Except Panic JournaledDB :=
  match s.object addr with
  | none => .error .nilDereference
  | some o => .ok (f o)

/-- `undo`. -/
def undo : JournalEntry → JournaledDB → Except Panic JournaledDB
  | .createObjectChange addr, s => .ok
    { s with
      stateObjects := Function.update s.stateObjects addr none
      stateObjectsDirty := s.stateObjectsDirty.erase addr }
  | .resetObjectChange addr prev, s => .ok (s.setStateObject addr prev)
  | .suicideChange addr prev prevbalance, s =>
    match s.object addr with
    | none => .ok s
    | some o => .ok (s.mark addr { (Edit.amount .balance prevbalance).apply o with suicided := prev })
  | .touchChange addr prev prevDirty, s =>
    if !prev && addr != ripemd then
      s.undoObject addr fun o =>
        { s.setStateObject addr { o with touched := prev } with
          stateObjectsDirty :=
            if prevDirty then s.stateObjectsDirty else s.stateObjectsDirty.erase addr }
    else .ok s
  | .addTXChange kind addr txHash, s =>
    s.undoObject addr fun o =>
      s.setStateObject addr (o.setPending kind ((o.tx kind).dirty.erase txHash))
  | .change addr prev, s => s.undoObject addr fun o => s.mark addr (prev.apply o)
  | .refundChange prev, s => .ok { s with context := { s.context with refund := prev } }
  | .addLogChange txhash, s =>
    match s.context.logs.lookup txhash with
    | none | some [] => .error .indexOutOfRange
    | some logs => .ok { s with context := { s.context with
        logs := if logs.length = 1 then s.context.logs.erase txhash
          else s.context.logs.insert txhash logs.dropLast
        logSize := s.context.logSize - 1 } }
  | .addPreimageChange hash, s =>
    .ok { s with context := { s.context with preimages := s.context.preimages.erase hash } }

/-- `Snapshot`: the id it returns. -/
def snapshotId (s : JournaledDB) : Nat := s.revisions.nextRevisionId

/-- `Snapshot`: the state it leaves. -/
def snapshot (s : JournaledDB) : JournaledDB :=
  { s with revisions := s.revisions.push s.journal.length }

/-- `RevertToSnapshot`. -/
def revertToSnapshot (s : JournaledDB) (revid : Nat) : Except Panic JournaledDB :=
  let idx := s.revisions.search revid
  match s.revisions.valid[idx]? with
  | none => .error (.explicit "revision id cannot be reverted")
  | some (id, journalIndex) =>
    if id ≠ revid then .error (.explicit "revision id cannot be reverted")
    else do
      let newer := s.journal.length - journalIndex
      let s' ← UndoLog.undoAll undo (s.journal.take newer) s
      .ok { s' with journal := s.journal.drop newer, revisions := s.revisions.take idx }

/-! ### Finalise, Commit, Reset and Copy -/

/-- `clearJournalAndRefund`. -/
def clearJournalAndRefund (s : JournaledDB) : JournaledDB :=
  { s with
    context := { s.context with refund := 0 }
    journal := []
    revisions := .none s.revisions.nextRevisionId }

/-- The panic of one of the dirty objects, if there is one. -/
def flushPanic (deleteEmptyObjects : Bool) (s : JournaledDB) : Option Panic :=
  let panicAt := fun a => (s.stateObjects a).elim (some .nilDereference)
    (StateObject.flushPanic deleteEmptyObjects)
  if ∃ a ∈ s.stateObjectsDirty, panicAt a = some .nilDereference then some .nilDereference
  else if ∃ a ∈ s.stateObjectsDirty, (panicAt a).isSome then
    some (.explicit "can't encode object")
  else if s.sideChainRewardPerBlock.unencodable then
    some (.explicit "can't encode side chain reward per block")
  else none

/-- `Finalise`.  The objects stay in `stateObjectsDirty`, and the sets keep their flags. -/
def finalise (deleteEmptyObjects : Bool) (s : JournaledDB) : Except Panic JournaledDB :=
  match s.flushPanic deleteEmptyObjects with
  | some p => .error p
  | none => .ok (clearJournalAndRefund
    { s with
      accounts := fun a => if a ∈ s.stateObjectsDirty then
        (s.stateObjects a).bind (StateObject.written deleteEmptyObjects) else s.accounts a
      stateObjects := fun a => if a ∈ s.stateObjectsDirty then
        (s.stateObjects a).map (StateObject.finalised deleteEmptyObjects) else s.stateObjects a
      sets := fun n => (s.sets n).write
      sideChainRewardPerBlock := s.sideChainRewardPerBlock.write })

/-- `IntermediateRoot`, with the contents of the trie in the place of their hash. -/
def intermediateRoot (deleteEmptyObjects : Bool) (s : JournaledDB) : Except Panic StateTrie :=
  (s.finalise deleteEmptyObjects).map trie

/-- The panic of `Commit`, which goes through the objects and not through the dirty addresses. -/
def commitPanic (deleteEmptyObjects : Bool) (s : JournaledDB) : Option Panic :=
  flushPanic deleteEmptyObjects
    { s with stateObjectsDirty := s.stateObjectsDirty.filter fun a => (s.stateObjects a).isSome }

/-- What `Commit` makes of an object.  A suicided one is deleted even if it is not dirty. -/
def committed (deleteEmptyObjects : Bool) (s : JournaledDB) (a : Address) (o : StateObject) :
    StateObject :=
  if a ∈ s.stateObjectsDirty then o.finalised deleteEmptyObjects
  else if o.suicided then { o with deleted := true } else o

/-- `Commit`.  No object gets its callback back. -/
def commit (deleteEmptyObjects : Bool) (s : JournaledDB) : Except Panic JournaledDB :=
  match s.commitPanic deleteEmptyObjects with
  | some p => .error p
  | none => .ok (clearJournalAndRefund
    { s with
      accounts := fun a =>
        match s.stateObjects a with
        | none => s.accounts a
        | some o => if a ∈ s.stateObjectsDirty then o.written deleteEmptyObjects
          else if o.suicided then none else s.accounts a
      stateObjects := fun a => (s.stateObjects a).map (s.committed deleteEmptyObjects a)
      stateObjectsDirty := s.stateObjectsDirty.filter fun a => (s.stateObjects a).isNone
      sets := fun n => (s.sets n).commit
      sideChainRewardPerBlock := s.sideChainRewardPerBlock.commit })

/-- `Reset`, to the root of a trie that can be opened. -/
def reset (s : JournaledDB) (root : StateTrie) : JournaledDB :=
  clearJournalAndRefund
    { s with
      accounts := root.accounts
      stateObjects := fun _ => none
      stateObjectsDirty := ∅
      sets := fun n => ⟨∅, root.sets n, (s.sets n).dirty⟩
      sideChainRewardPerBlock :=
        ⟨none, s.sideChainRewardPerBlock.dirty, root.sideChainRewardPerBlock⟩
      context := .new }

/-- `Copy`: the dirty objects are copied, and nothing is kept of the transaction or the journal. -/
def copy (s : JournaledDB) : Except Panic JournaledDB :=
  if ∃ a ∈ s.stateObjectsDirty, ((s.stateObjects a).elim false StateObject.copies) = false then
    .error .nilDereference
  else .ok
    { s with
      stateObjects := fun a =>
        if a ∈ s.stateObjectsDirty then (s.stateObjects a).map StateObject.deepCopy else none
      context := { s.context with thash := zeroHash, bhash := zeroHash, txIndex := 0 }
      journal := []
      revisions := .none 0 }

/-! ### Getters -/

/-- What the getters show of an object.  Each of them is a function of these: `GetBalance` and the
like of `data`, `IsCleanAddress` of `data`, `rooted` and the proxied trie, `GetProxiedBalanceByUser`
and its two siblings of `proxied`, `ForEachProxied` of `proxiedIterated`, and so on.
`GetDelegateRewardAddress` writes into a nil map as soon as it meets an address, so that all it
shows is whether there is one.  `TX1Trie`, `TX3Trie` and `StorageTrie` work on a copy of the object,
which may panic. -/
structure View where
  data : AccountData
  rooted : Bool
  suicided : Bool
  storageTrie : TxHash → Option Bytes
  storage : TxHash → Option Bytes
  committedStorage : TxHash → Option Bytes
  storageIterated : TxHash → Option (Option Bytes)
  txTrie : TxKind → Finset TxHash
  hasTX : TxKind → TxHash → Bool
  proxiedTrie : Address → Option AccountProxiedBalance
  proxied : Address → Option AccountProxiedBalance
  proxiedIterated : Address → Option (Option AccountProxiedBalance)
  rewardTrie : Address → Option Int
  reward : Address → Option Int
  rewardIterated : Address → Option (Option Int)
  noDelegateRewardAddress : Prop
  copies : Bool

/-- The view of an object. -/
def view (o : StateObject) : View where
  data := o.data
  rooted := o.rooted
  suicided := o.suicided
  storageTrie := o.storage.base
  storage := o.storage.get
  committedStorage := o.storage.committed
  storageIterated := o.storage.iterated
  txTrie := fun kind => (o.tx kind).trie
  hasTX := fun kind => (o.tx kind).has
  proxiedTrie := o.proxied.base
  proxied := o.proxied.get
  proxiedIterated := o.proxied.iterated
  rewardTrie := o.reward.base
  reward := o.reward.get
  rewardIterated := o.reward.iterated
  noDelegateRewardAddress :=
    (∀ k, o.reward.base k = none) ∧ o.reward.origin = ∅ ∧ o.reward.dirty = ∅
  copies := o.copies

/-- What all getters of the database show. -/
structure Getters where
  objects : Address → Option View
  sets : SetName → Finset Address
  sideChainRewardPerBlock : Int
  bhash : TxHash
  txIndex : Nat
  logs : Finmap fun _ : TxHash => List Log
  preimages : Finmap fun _ : TxHash => Bytes
  refund : Nat

/-- The getters of a state. -/
def getters (s : JournaledDB) : Getters where
  objects := fun a => (s.object a).map view
  sets := fun n => (s.sets n).addresses
  sideChainRewardPerBlock := s.sideChainRewardPerBlock.get
  bhash := s.context.bhash
  txIndex := s.context.txIndex
  logs := s.context.logs
  preimages := s.context.preimages
  refund := s.context.refund

end JournaledDB

end NeatPoS
