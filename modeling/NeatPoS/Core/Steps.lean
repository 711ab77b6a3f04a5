import NeatPoS.Lib.Stateful
import NeatPoS.Core.Finalise

/-!
# Steps of the database

What happens to a database while blocks are executed, as one type `DbStep`: the calls, `Snapshot`
and `RevertToSnapshot`, `Finalise`, `Commit`, and that the state is opened again at the root of the
last `Commit`.

The calls of the virtual machine do what the staking calls do, and four things more: an account
suicides, one is created over an old one, an entry is read into a cache, and the part of the
database is changed that has nothing to do with accounts.  With these four, `Change` is what a call
can do to a database; `ContractCall.exec_eq_changes` is for the virtual machine what
`Call.exec_eq_actions` is for the staking code.
-/

set_option autoImplicit false

namespace NeatPoS

open JournaledDB

/-! ## Changes -/

/-- The entry of an object that a getter reads. -/
inductive EntryRead where
  | state (key : TxHash)
  | accountProxiedBalance (user : Address)
  | delegateRewardBalance (deleAddress : Address)

/-- The object after the read. -/
def EntryRead.apply (o : StateObject) : EntryRead → StateObject
  | state key => { o with storage := o.storage.fetch key }
  | accountProxiedBalance user => { o with proxied := o.proxied.fetch user }
  | delegateRewardBalance deleAddress => { o with reward := o.reward.fetch deleAddress }

/-- The entries of the journal that are not about an account. -/
def JournalEntry.OfContext : JournalEntry → Prop
  | refundChange _ => True
  | addLogChange _ => True
  | addPreimageChange _ => True
  | _ => False

/-- What a call can do to a database. -/
inductive Change where
  | action (act : DbAction)
  | suicide (addr : Address)
  /-- `CreateAccount`, where there is an object already -/
  | reset (addr : Address)
  | read (addr : Address) (entry : EntryRead)
  | context (entry : Option JournalEntry) (context : TxContext) (reward : CachedAmount)

namespace Change

/-- The state after a change. -/
def run (s : JournaledDB) : Change → JournaledDB
  | action act => act.run s
  | suicide addr => s.suicide addr
  | reset addr => s.createAccount addr
  | read addr entry => ContractCall.cache s addr fun o => entry.apply o
  | context entry ctx reward =>
    { s with
      journal := entry.toList ++ s.journal
      context := ctx
      sideChainRewardPerBlock := reward }

/-- The state after a list of changes. -/
def runAll (s : JournaledDB) (chs : List Change) : JournaledDB := chs.foldl run s

/-- What holds of every change of a list, in the state in which it is run. -/
def AllAt (P : JournaledDB → Change → Prop) : JournaledDB → List Change → Prop
  | _, [] => True
  | s, ch :: chs => P s ch ∧ AllAt P (ch.run s) chs

/-- What is true of a change that a call makes. -/
def Valid (s : JournaledDB) : Change → Prop
  | action act => act.Valid s
  | suicide addr => (s.object addr).isSome
  | reset addr => (s.object addr).isSome
  | read addr _ => (s.object addr).isSome
  | context entry _ reward => (∀ e ∈ entry, e.OfContext) ∧
      (reward = s.sideChainRewardPerBlock ∨
        ∃ x, reward = { s.sideChainRewardPerBlock with cache := some x, dirty := true })

theorem runAll_action (s : JournaledDB) (acts : List DbAction) :
    runAll s (acts.map action) = DbAction.runAll s acts := by
  rw [runAll, List.foldl_map]
  rfl

variable {P : JournaledDB → Change → Prop} {s : JournaledDB}

theorem allAt_action {acts : List DbAction} :
    AllAt P s (acts.map action) ↔ DbAction.AllAt (fun s act => P s (action act)) s acts := by
  induction acts generalizing s with
  | nil => exact Iff.rfl
  | cons _ _ ih => exact and_congr_right fun _ => ih

/-- A property that every change keeps, if it is such a one, is kept by a list of them. -/
theorem runAll_preserves {I : JournaledDB → Prop}
    (hI : ∀ s ch, P s ch → I s → I (ch.run s)) {chs : List Change}
    (hall : AllAt P s chs) (hs : I s) : I (runAll s chs) := by
  induction chs generalizing s with
  | nil => exact hs
  | cons ch _ ih => exact ih hall.2 (hI s ch hall.1 hs)

theorem AllAt.and {Q : JournaledDB → Change → Prop} {chs : List Change}
    (hP : AllAt P s chs) (hQ : AllAt Q s chs) : AllAt (fun s ch => P s ch ∧ Q s ch) s chs := by
  induction chs generalizing s with
  | nil => trivial
  | cons _ _ ih => exact ⟨⟨hP.1, hQ.1⟩, ih hP.2 hQ.2⟩

end Change

/-! ## The calls of the virtual machine -/

namespace ContractCall

open Change

/-- A change of an account that is there, and nothing otherwise. -/
def ifThere (s : JournaledDB) (addr : Address) (ch : Change) : List Change :=
  if (s.object addr).isSome then [ch] else []

/-- The changes of a call. -/
def changes (s : JournaledDB) : ContractCall → Except Panic (List Change)
  | setCode addr c => .ok ((Call.creation s addr ++ [DbAction.edit addr (.code c)]).map action)
  | setState addr key v =>
    .ok ((Call.creation s addr ++ [DbAction.edit addr (.state key v)]).map action)
  | suicide addr => .ok (ifThere s addr (.suicide addr))
  | createAccount addr =>
    .ok [if (s.object addr).isSome then .reset addr else .action (.create addr)]
  | addRefund gas =>
    .ok [.context (some (.refundChange s.context.refund))
      { s.context with refund := (s.context.refund + gas) % 2 ^ 64 } s.sideChainRewardPerBlock]
  | subRefund gas =>
    if gas > s.context.refund then .error (.explicit "Refund counter below zero")
    else .ok [.context (some (.refundChange s.context.refund))
      { s.context with refund := s.context.refund - gas } s.sideChainRewardPerBlock]
  | addLog content =>
    let c := s.context
    .ok [.context (some (.addLogChange c.thash))
      { c with
        logs := c.logs.insert c.thash ((c.logs.lookup c.thash).getD [] ++
          [⟨content, c.thash, c.bhash, c.txIndex, c.logSize⟩])
        logSize := c.logSize + 1 } s.sideChainRewardPerBlock]
  | addPreimage hash preimage =>
    .ok (if hash ∈ s.context.preimages then [] else
      [.context (some (.addPreimageChange hash))
        { s.context with preimages := s.context.preimages.insert hash preimage }
        s.sideChainRewardPerBlock])
  | prepare thash bhash ti =>
    .ok [.context none { s.context with thash := thash, bhash := bhash, txIndex := ti }
      s.sideChainRewardPerBlock]
  | setSideChainRewardPerBlock x =>
    .ok [.context none s.context
      { s.sideChainRewardPerBlock with cache := some x, dirty := true }]
  | getState addr key => .ok (ifThere s addr (.read addr (.state key)))
  | getByUser addr user => .ok (ifThere s addr (.read addr (.accountProxiedBalance user)))
  | getRewardBalanceByDelegateAddress addr deleAddress =>
    .ok (ifThere s addr (.read addr (.delegateRewardBalance deleAddress)))

variable {s : JournaledDB} {addr : Address}

theorem runAll_ifThere {ch : Change}
    (h : s.object addr = none → ch.run s = s) : runAll s (ifThere s addr ch) = ch.run s := by
  rw [ifThere]
  cases ho : s.object addr with
  | none => exact (h ho).symm
  | some => rfl

theorem run_read_of_none (h : s.object addr = none)
    (entry : EntryRead) : (Change.read addr entry).run s = s := by
  rw [Change.run, cache, h]

/-- **A call of the virtual machine is its changes.** -/
theorem exec_eq_changes (s : JournaledDB) (c : ContractCall) :
    c.exec s = (c.changes s).map (runAll s) := by
  cases c with
  | setCode | setState =>
    simp only [exec, changes, Except.map, runAll_action, DbAction.runAll_append,
      Call.runAll_creation]
    rfl
  | suicide =>
    simp only [exec, changes, Except.map]
    rw [runAll_ifThere fun h => by rw [Change.run, JournaledDB.suicide, h]]
    rfl
  | createAccount addr =>
    simp only [exec, changes, Except.map]
    cases h : s.object addr with
    | none => simp [runAll, Change.run, DbAction.run, JournaledDB.createAccount, h]
    | some => simp [runAll, Change.run]
  | addPreimage =>
    simp only [exec, changes, Except.map]
    split <;> rfl
  | subRefund =>
    simp only [exec, changes]
    split <;> rfl
  | getState | getByUser | getRewardBalanceByDelegateAddress =>
    simp only [exec, changes, Except.map]
    rw [runAll_ifThere fun h => run_read_of_none h _]
    rfl
  | _ => rfl

theorem allAt_ifThere {P : JournaledDB → Change → Prop}
    {ch : Change} (h : (s.object addr).isSome → P s ch) : AllAt P s (ifThere s addr ch) := by
  rw [ifThere]
  split
  · rename_i hsome
    exact ⟨h hsome, trivial⟩
  · trivial

theorem allAt_setter {e : Edit} (he : e.NotNil) :
    AllAt Valid s ((Call.creation s addr ++ [DbAction.edit addr e]).map action) := by
  refine allAt_action.2 (Call.allAt_creation_append id ⟨⟨?_, he⟩, trivial⟩)
  rw [object_getOrNewStateObject]
  rfl

theorem changes_valid {c : ContractCall} {chs : List Change}
    (h : c.changes s = .ok chs) : AllAt Valid s chs := by
  cases c with
  | setCode _ c =>
    cases h
    exact allAt_setter (e := .code c) trivial
  | setState _ key v =>
    cases h
    exact allAt_setter (e := .state key v) trivial
  | suicide | getState | getByUser | getRewardBalanceByDelegateAddress =>
    cases h
    exact allAt_ifThere id
  | createAccount addr =>
    cases h
    cases ho : s.object addr with
    | none => exact ⟨ho, trivial⟩
    | some => exact ⟨by simp [Valid, ho], trivial⟩
  | subRefund =>
    rw [changes] at h
    split at h
    · simp at h
    · cases h
      exact ⟨⟨by simp [JournalEntry.OfContext], .inl rfl⟩, trivial⟩
  | addPreimage =>
    cases h
    split
    · trivial
    · exact ⟨⟨by simp [JournalEntry.OfContext], .inl rfl⟩, trivial⟩
  | setSideChainRewardPerBlock x =>
    cases h
    exact ⟨⟨by simp, .inr ⟨x, rfl⟩⟩, trivial⟩
  | _ =>
    cases h
    exact ⟨⟨by simp [JournalEntry.OfContext], .inl rfl⟩, trivial⟩

end ContractCall

/-! ## Going back -/

namespace JournaledDB

section
variable {s : JournaledDB} {a : Address} {o : StateObject} (ho : s.object a = some o)
include ho

theorem undo_suicideChange (prev : Bool) (prevbalance : Int) :
    undo (.suicideChange a prev prevbalance) s = .ok (s.mark a
      { (Edit.amount .balance prevbalance).apply o with suicided := prev }) := by
  simp only [undo, ho]

theorem undo_touchChange {prev : Bool} (h : (!prev && a != ripemd) = true) (prevDirty : Bool) :
    undo (.touchChange a prev prevDirty) s = .ok
      { s.setStateObject a { o with touched := prev } with
        stateObjectsDirty :=
          if prevDirty then s.stateObjectsDirty else s.stateObjectsDirty.erase a } := by
  simp only [undo, h, if_true, undoObject, ho]

theorem undo_addTXChange (kind : TxKind) (txHash : TxHash) :
    undo (.addTXChange kind a txHash) s =
      .ok (s.setStateObject a (o.setPending kind ((o.tx kind).dirty.erase txHash))) := by
  simp only [undo, undoObject, ho]

theorem undo_change (prev : Edit) : undo (.change a prev) s = .ok (s.mark a (prev.apply o)) := by
  simp only [undo, undoObject, ho]

end

theorem undo_touchChange_skip {a : Address} {prev : Bool} (h : (!prev && a != ripemd) = false)
    (prevDirty : Bool) (s : JournaledDB) : undo (.touchChange a prev prevDirty) s = .ok s := by
  simp only [undo, h, Bool.false_eq_true, if_false]

end JournaledDB

/-- The account an entry is about. -/
def JournalEntry.about : JournalEntry → Option Address
  | createObjectChange account => some account
  | resetObjectChange account _ => some account
  | suicideChange account _ _ => some account
  | touchChange account _ _ => some account
  | addTXChange _ account _ => some account
  | change account _ => some account
  | _ => none

namespace JournaledDB

/-- What undoing an entry makes of the object of its account. -/
inductive Undoes (s : JournaledDB) (a : Address) : JournalEntry → Option StateObject → Prop
  | create : Undoes s a (.createObjectChange a) none
  | reset (prev : StateObject) : Undoes s a (.resetObjectChange a prev) (some prev)
  | suicide (prev : Bool) (prevbalance : Int) {o : StateObject} (ho : s.object a = some o) :
    Undoes s a (.suicideChange a prev prevbalance)
      (some { (Edit.amount .balance prevbalance).apply o with suicided := prev, onDirty := false })
  | touch (prev prevDirty : Bool) {o : StateObject} (ho : s.object a = some o) :
    Undoes s a (.touchChange a prev prevDirty) (some { o with touched := prev })
  | addTX (kind : TxKind) (txHash : TxHash) {o : StateObject} (ho : s.object a = some o) :
    Undoes s a (.addTXChange kind a txHash)
      (some (o.setPending kind ((o.tx kind).dirty.erase txHash)))
  | change (prev : Edit) {o : StateObject} (ho : s.object a = some o) :
    Undoes s a (.change a prev) (some { prev.apply o with onDirty := false })

/-- **What undoing an entry can do.**  It changes the context, or one object and whether that one is
dirty. -/
theorem undo_cases {s t : JournaledDB} {e : JournalEntry} (hu : undo e s = .ok t) :
    (∃ c, t = { s with context := c } ∧ ∀ kind a txHash, e ≠ .addTXChange kind a txHash) ∨
      ∃ a p dirty, e.about = some a ∧ s.Undoes a e p ∧
        (∀ b, b ≠ a → (b ∈ dirty ↔ b ∈ s.stateObjectsDirty)) ∧
          t = { s with
            stateObjects := Function.update s.stateObjects a p, stateObjectsDirty := dirty } := by
  have hmark : ∀ (a : Address) (armed : Bool) (b : Address), b ≠ a →
      (b ∈ (if armed then insert a s.stateObjectsDirty else s.stateObjectsDirty) ↔
        b ∈ s.stateObjectsDirty) := by
    intro a armed b hb
    cases armed <;> simp [hb]
  cases e with
  | createObjectChange a =>
    cases hu
    exact .inr ⟨a, none, _, rfl, .create, fun b hb => by simp [hb], rfl⟩
  | resetObjectChange a prev =>
    cases hu
    exact .inr ⟨a, some prev, _, rfl, .reset prev, fun _ _ => Iff.rfl, rfl⟩
  | suicideChange a prev prevbalance =>
    cases ho : s.object a with
    | none =>
      simp only [undo, ho, Except.ok.injEq] at hu
      exact .inl ⟨s.context, hu.symm, by simp⟩
    | some =>
      rw [undo_suicideChange ho, Except.ok.injEq] at hu
      exact .inr ⟨a, _, _, rfl, .suicide prev prevbalance ho, hmark a _, hu.symm⟩
  | touchChange a prev prevDirty =>
    by_cases hundo : (!prev && a != ripemd) = true
    · cases ho : s.object a with
      | none => simp [undo, hundo, undoObject, ho] at hu
      | some =>
        rw [undo_touchChange ho hundo, Except.ok.injEq] at hu
        refine .inr ⟨a, _, _, rfl, .touch prev prevDirty ho, fun b hb => ?_, hu.symm⟩
        cases prevDirty <;> simp [hb]
    · rw [undo_touchChange_skip (by simpa using hundo), Except.ok.injEq] at hu
      exact .inl ⟨s.context, hu.symm, by simp⟩
  | addTXChange kind a txHash =>
    cases ho : s.object a with
    | none => simp [undo, undoObject, ho] at hu
    | some =>
      rw [undo_addTXChange ho, Except.ok.injEq] at hu
      exact .inr ⟨a, _, _, rfl, .addTX kind txHash ho, fun _ _ => Iff.rfl, hu.symm⟩
  | change a prev =>
    cases ho : s.object a with
    | none => simp [undo, undoObject, ho] at hu
    | some =>
      rw [undo_change ho, Except.ok.injEq] at hu
      exact .inr ⟨a, _, _, rfl, .change prev ho, hmark a _, hu.symm⟩
  | refundChange | addPreimageChange =>
    cases hu
    exact .inl ⟨_, rfl, by simp⟩
  | addLogChange =>
    rw [undo] at hu
    split at hu
    · simp at hu
    · simp at hu
    · cases hu
      exact .inl ⟨_, rfl, by simp⟩

/-- The entries that going back to a snapshot undoes. -/
def undone (s : JournaledDB) (revid : Nat) : List JournalEntry :=
  match s.revisions.valid[s.revisions.search revid]? with
  | none => []
  | some (_, journalIndex) => s.journal.take (s.journal.length - journalIndex)

/-- What `RevertToSnapshot` does when it returns. -/
theorem revertToSnapshot_eq_ok {s s' : JournaledDB} {revid : Nat}
    (h : s.revertToSnapshot revid = .ok s') :
    ∃ journalIndex t, (revid, journalIndex) ∈ s.revisions.valid ∧
      s.undone revid = s.journal.take (s.journal.length - journalIndex) ∧
        UndoLog.undoAll undo (s.undone revid) s = .ok t ∧
          s' = { t with
            journal := s.journal.drop (s.journal.length - journalIndex)
            revisions := s.revisions.take (s.revisions.search revid) } := by
  simp only [revertToSnapshot] at h
  split at h
  · simp at h
  rename_i id journalIndex hfind
  split at h
  · simp at h
  rename_i hid
  obtain rfl : id = revid := by simpa using hid
  have hundone : s.undone id = s.journal.take (s.journal.length - journalIndex) := by
    rw [undone, hfind]
  rw [← hundone] at h
  cases hu : UndoLog.undoAll undo (s.undone id) s with
  | error => simp [hu, bind, Except.bind] at h
  | ok t =>
    rw [hu] at h
    exact ⟨journalIndex, t, List.mem_of_getElem? hfind, hundone, rfl, (Except.ok.inj h).symm⟩

end JournaledDB

/-! ## Steps -/

/-- A call of either kind. -/
inductive DbCall where
  | staking (c : Call)
  | contract (c : ContractCall)

namespace DbCall

/-- Runs a call. -/
def exec (s : JournaledDB) : DbCall → Except Panic JournaledDB
  | staking c => c.exec s
  | contract c => c.exec s

/-- The changes of a call. -/
def changes (s : JournaledDB) : DbCall → Except Panic (List Change)
  | staking c => (c.actions s).map (List.map .action)
  | contract c => c.changes s

/-- **A call is its changes, and they are valid.** -/
theorem exec_eq_ok {s s' : JournaledDB} {c : DbCall} :
    c.exec s = .ok s' ↔
      ∃ chs, c.changes s = .ok chs ∧ Change.AllAt Change.Valid s chs ∧
        s' = Change.runAll s chs := by
  have hmap : c.exec s = (c.changes s).map (Change.runAll s) := by
    cases c with
    | staking c =>
      rw [exec, changes, Call.exec_eq_actions]
      cases c.actions s with
      | error => rfl
      | ok acts => exact congrArg Except.ok (Change.runAll_action s acts).symm
    | contract c => exact ContractCall.exec_eq_changes s c
  have hvalid : ∀ chs, c.changes s = .ok chs → Change.AllAt Change.Valid s chs := by
    intro chs h
    cases c with
    | staking c =>
      cases ha : c.actions s with
      | error => simp [changes, ha, Except.map] at h
      | ok =>
        simp only [changes, ha, Except.map, Except.ok.injEq] at h
        obtain rfl := h
        exact Change.allAt_action.2 (Call.actions_valid ha)
    | contract => exact ContractCall.changes_valid h
  rw [hmap]
  cases hc : c.changes s with
  | error => simp [Except.map]
  | ok chs =>
    simp only [Except.map, Except.ok.injEq, exists_eq_left']
    exact ⟨fun h => ⟨hvalid chs hc, h.symm⟩, fun h => h.2.symm⟩

end DbCall

/-- A database, with the root it was opened or last committed at. -/
structure OpenDB where
  db : JournaledDB
  root : StateTrie

/-- The database that is opened at a root. -/
def OpenDB.ofRoot (root : StateTrie) : OpenDB := ⟨.new root, root⟩

/-- What may happen to a database. -/
inductive DbStep where
  | call (c : DbCall)
  | snapshot
  | revertToSnapshot (revid : Nat)
  | finalise (deleteEmptyObjects : Bool)
  | commit (deleteEmptyObjects : Bool)
  /-- The state is opened at the root of the last `Commit`. -/
  | reopen

/-- The database after a step. -/
def DbStep.run (s : OpenDB) : DbStep → Except Panic OpenDB
  | call c => (c.exec s.db).map fun db => ⟨db, s.root⟩
  | snapshot => .ok ⟨s.db.snapshot, s.root⟩
  | revertToSnapshot revid => (s.db.revertToSnapshot revid).map fun db => ⟨db, s.root⟩
  | finalise b => (s.db.finalise b).map fun db => ⟨db, s.root⟩
  | commit b => (s.db.commit b).map fun db => ⟨db, db.trie⟩
  | reopen => .ok (.ofRoot s.root)

end NeatPoS
