import NeatPoS.Core.Steps

/-!
# How long a transaction stays marked

`AddTX1` and `AddTX3` mark a cross-chain transaction as used, so that it is not executed twice;
`HasTX1` and `HasTX3` ask for the mark.  A mark that was made and not reverted should be found at
any later time.  There are four ways to lose one.

* A hash that begins with a zero byte is written to the trie without it, and is then compared with
  the whole hash.  It is found as long as it is in memory only.  (The mismatch is also remembered as
  `dbErr`, and the next `Commit` fails with it; the model has no `dbErr`.)
* `AddTX1` does not make its object dirty.  If nothing else does, the mark is not written by
  `Commit`, and is not there when the state is opened again.
* A mark that is made twice is removed when the second one is reverted.
* The account is deleted by `Finalise` or `Commit`, or `CreateAccount` replaces it.

`marks_persist_iff` says that these are all.
-/

set_option autoImplicit false

namespace NeatPoS

open JournaledDB Stateful

variable {c : DbCall} {h : TxHash} {e : JournalEntry}

/-- A call of `AddTX1` or `AddTX3`. -/
structure TxMark where
  kind : TxKind
  addr : Address
  txHash : TxHash

namespace TxMark

variable (m : TxMark)

/-- `HasTX1`, `HasTX3`. -/
def shown (s : JournaledDB) : Bool :=
  (s.object m.addr).elim false fun o => (o.tx m.kind).has m.txHash

/-- The database after the call. -/
def add (s : JournaledDB) : JournaledDB :=
  (s.getOrNewStateObject m.addr).markTX m.kind m.addr m.txHash

/-- The mark can be read back from a trie. -/
def Readable : Prop := m.txHash.head? ≠ some 0

/-- The mark is in the trie of the account in the state trie, and can be read back. -/
def Stored (s : JournaledDB) : Prop :=
  m.Readable ∧ ∃ st, s.accounts m.addr = some st ∧ m.txHash ∈ st.tx m.kind

variable {m} {s s' : JournaledDB} {o : StateObject}

theorem shown_of_object (h : s.object m.addr = some o) :
    m.shown s = (o.tx m.kind).has m.txHash := by
  rw [shown, h]
  rfl

theorem exists_of_shown (h : m.shown s = true) :
    ∃ o, s.object m.addr = some o ∧ (o.tx m.kind).has m.txHash = true := by
  cases ho : s.object m.addr with
  | none => simp [shown, ho] at h
  | some o => exact ⟨o, rfl, by rw [← h, shown_of_object ho]⟩

theorem has_iff (c : MarkCache) (h : TxHash) :
    c.has h = true ↔ h ∈ c.dirty ∨ h ∈ c.trie ∧ h.head? ≠ some 0 := decide_eq_true_iff

theorem mem_union_of_has {c : MarkCache} (hc : c.has h = true) : h ∈ c.trie ∪ c.dirty := by
  rcases (has_iff c h).1 hc with hd | ht
  · exact Finset.mem_union_right _ hd
  · exact Finset.mem_union_left _ ht.1

theorem shown_new (root : StateTrie) :
    m.shown (.new root) = true ↔
      m.Readable ∧ ∃ st, root.accounts m.addr = some st ∧ m.txHash ∈ st.tx m.kind := by
  have hobject : (JournaledDB.new root).object m.addr = (root.accounts m.addr).map .load := rfl
  cases hst : root.accounts m.addr with
  | none => simp [shown, hobject, hst]
  | some =>
    rw [shown_of_object (by rw [hobject, hst]; rfl), has_iff]
    simp [StateObject.load, Readable, and_comm]

end TxMark

/-! ## Runs -/

/-- A database in which a mark was made. -/
structure MarkedDB extends OpenDB where
  /-- The id of the first snapshot after the mark; going back to an older one takes the mark back.
  -/
  firstSnapshot : Nat
  /-- There has been a `Commit` since the mark. -/
  committed : Bool

/-- Right after the mark was made. -/
def MarkedDB.start (m : TxMark) (s : OpenDB) : MarkedDB :=
  ⟨⟨m.add s.db, s.root⟩, s.db.revisions.nextRevisionId, false⟩

namespace DbStep

/-- A step that does not take the mark back: to an old snapshot, or to a root from before. -/
def Keeps (t : MarkedDB) : DbStep → Prop
  | revertToSnapshot revid => t.firstSnapshot ≤ revid
  | reopen => t.committed = true
  | _ => True

/-- The marked database after a step. -/
def runMarked (t : MarkedDB) (step : DbStep) : Except Panic MarkedDB :=
  (step.run t.toOpenDB).map fun s =>
    match step with
    | commit _ => ⟨s, t.firstSnapshot, true⟩
    | reopen => ⟨s, 0, t.committed⟩
    | _ => ⟨s, t.firstSnapshot, t.committed⟩

end DbStep

namespace TxMark

variable (m : TxMark)

/-- The mark is found, and, after a `Commit`, also in the state at the root. -/
def Shows (t : MarkedDB) : Prop :=
  m.shown t.db = true ∧ (t.committed = true → m.shown (.new t.root) = true)

/-- A step that does not lose the mark. -/
def Safe (t : MarkedDB) : DbStep → Prop
  | .call (.contract (.createAccount addr)) => addr ≠ m.addr
  | .revertToSnapshot revid =>
    .addTXChange m.kind m.addr m.txHash ∉ t.db.undone revid ∨
      m.Readable ∧ ∃ o, t.db.object m.addr = some o ∧ m.txHash ∈ (o.tx m.kind).trie
  | .finalise b => m.addr ∈ t.db.stateObjectsDirty →
    m.Readable ∧ ∀ o, t.db.stateObjects m.addr = some o → o.clears b = false
  | .commit b => ∀ o, t.db.stateObjects m.addr = some o →
    if m.addr ∈ t.db.stateObjectsDirty then m.Readable ∧ o.clears b = false
    else m.Stored t.db ∧ o.suicided = false
  | _ => True

/-- The mark is found before and after every step of a run, as long as it is not taken back. -/
def Persists : MarkedDB → List DbStep → Prop
  | t, [] => m.Shows t
  | t, step :: steps => m.Shows t ∧
    (step.Keeps t → ∀ t', step.runMarked t = .ok t' → Persists t' steps)

/-- Every step of a run is safe in the state it is executed in. -/
def SafeRun : MarkedDB → List DbStep → Prop
  | _, [] => True
  | t, step :: steps =>
    step.Keeps t → ∀ t', step.runMarked t = .ok t' → m.Safe t step ∧ SafeRun t' steps

variable {m}

theorem Persists.shows {t : MarkedDB} {steps : List DbStep} (h : m.Persists t steps) :
    m.Shows t := by
  cases steps with
  | nil => exact h
  | cons => exact h.1

/-! ## Changes -/

/-- The entries that put another object in the place of an account. -/
def Replaces (addr : Address) : JournalEntry → Prop
  | .createObjectChange a => a = addr
  | .resetObjectChange a _ => a = addr
  | _ => False

/-- A database that a mark is still found in, and that has journaled nothing that would replace the
account. -/
structure Extends (m : TxMark) (s s' : JournaledDB) : Prop where
  shown : m.shown s' = true
  journal : ∃ entries, s'.journal = entries ++ s.journal ∧ ∀ e ∈ entries, ¬ Replaces m.addr e
  revisions : s'.revisions = s.revisions

theorem Extends.trans {s s' s'' : JournaledDB} (h : m.Extends s s') (h' : m.Extends s' s'') :
    m.Extends s s'' := by
  obtain ⟨entries, hentries, hkeep⟩ := h.journal
  obtain ⟨entries', hentries', hkeep'⟩ := h'.journal
  refine ⟨h'.shown, ⟨entries' ++ entries, ?_, fun e he => ?_⟩, h'.revisions.trans h.revisions⟩
  · rw [hentries', hentries, List.append_assoc]
  · rcases List.mem_append.1 he with he | he
    · exact hkeep' e he
    · exact hkeep e he

variable {s s' : JournaledDB} {o : StateObject}

/-- One entry, and the object as it is then. -/
theorem Extends.of_object {o' : StateObject} (ho : s'.object m.addr = some o')
    (hhas : (o'.tx m.kind).has m.txHash = true) (hj : s'.journal = e :: s.journal)
    (he : ¬ Replaces m.addr e) (hr : s'.revisions = s.revisions) : m.Extends s s' := by
  refine ⟨by rw [shown_of_object ho, hhas], ⟨[e], hj, fun e' he' => ?_⟩, hr⟩
  rwa [List.mem_singleton.1 he']

theorem has_insert {c : MarkCache} {h' : TxHash} (hc : c.has h = true) :
    (MarkCache.mk c.trie (insert h' c.dirty)).has h = true := by
  rw [has_iff] at hc ⊢
  rcases hc with hc | hc
  · exact .inl (Finset.mem_insert_of_mem hc)
  · exact .inr hc

theorem has_setPending {kind : TxKind} {h' : TxHash} (hc : (o.tx m.kind).has m.txHash = true) :
    ((o.setPending kind (insert h' (o.tx kind).dirty)).tx m.kind).has m.txHash = true := by
  by_cases hk : m.kind = kind
  · subst hk
    simp only [StateObject.setPending, Function.update_self]
    exact has_insert hc
  · simp only [StateObject.setPending, Function.update_of_ne hk]
    exact hc

theorem Extends.action {act : DbAction} (hv : act.Valid s) (h : m.shown s = true) :
    m.Extends s (act.run s) := by
  obtain ⟨o, ho, hhas⟩ := exists_of_shown h
  have hobject : ∃ o', (act.run s).object m.addr = some o' ∧
      (o'.tx m.kind).has m.txHash = true := by
    rcases DbAction.object_run_cases hv ho with h | ⟨e, -, -, h⟩ | ⟨-, h⟩ | ⟨kind, h', -, h⟩
    · exact ⟨o, h, hhas⟩
    · refine ⟨_, h, ?_⟩
      change ((e.apply o).tx m.kind).has m.txHash = true
      rwa [Edit.tx_apply]
    · exact ⟨_, h, hhas⟩
    · exact ⟨_, h, has_setPending hhas⟩
  obtain ⟨o', ho', hhas'⟩ := hobject
  cases act with
  | create addr =>
    have hne : addr ≠ m.addr := by
      rintro rfl
      rw [show s.object m.addr = none from hv] at ho
      simp at ho
    exact .of_object ho' hhas' rfl hne rfl
  | edit =>
    obtain ⟨o₁, ho₁⟩ := Option.isSome_iff_exists.1 hv.1
    rw [DbAction.run, edit_of_object ho₁] at ho' ⊢
    exact .of_object ho' hhas' rfl id rfl
  | touch =>
    obtain ⟨o₁, ho₁⟩ := Option.isSome_iff_exists.1 hv
    rw [DbAction.run, touch_of_object ho₁] at ho' ⊢
    exact .of_object ho' hhas' rfl id rfl
  | markTX =>
    obtain ⟨o₁, ho₁⟩ := Option.isSome_iff_exists.1 hv
    rw [DbAction.run, markTX_of_object ho₁] at ho' ⊢
    exact .of_object ho' hhas' rfl id rfl
  | changeSet => exact ⟨by rw [shown_of_object ho', hhas'], ⟨[], rfl, by simp⟩, rfl⟩

theorem not_replaces_of_context (h : e.OfContext) (addr : Address) : ¬ Replaces addr e := by
  cases e <;> first | exact id | exact h.elim

theorem Extends.change {ch : Change} (hv : ch.Valid s) (hne : ∀ addr, ch = .reset addr →
    addr ≠ m.addr) (h : m.shown s = true) : m.Extends s (ch.run s) := by
  obtain ⟨o, ho, hhas⟩ := exists_of_shown h
  cases ch with
  | action => exact .action hv h
  | suicide addr =>
    obtain ⟨o₁, ho₁⟩ := Option.isSome_iff_exists.1 hv
    have hrun : (Change.suicide addr).run s =
        (s.log (.suicideChange addr o₁.suicided (o₁.data.amount .balance))).mark addr
          { (Edit.amount .balance 0).apply o₁ with suicided := true } := by
      rw [Change.run, JournaledDB.suicide, ho₁]
    rw [hrun]
    by_cases ha : m.addr = addr
    · subst ha
      obtain rfl := Option.some.inj (ho.symm.trans ho₁)
      have hd : o.deleted = false := deleted_of_object ho
      exact .of_object (object_mark_self hd) hhas rfl id rfl
    · exact .of_object ((object_mark_of_ne ha).trans ho) hhas rfl id rfl
  | reset addr =>
    obtain ⟨o₁, ho₁⟩ := Option.isSome_iff_exists.1 hv
    have hrun : (Change.reset addr).run s = (s.log (.resetObjectChange addr o₁)).putNew addr
        ((Edit.amount .balance (o₁.data.amount .balance)).apply .new) := by
      rw [Change.run, JournaledDB.createAccount, ho₁]
    rw [hrun]
    exact .of_object ((object_putNew_of_ne (hne addr rfl).symm).trans ho) hhas rfl (hne addr rfl) rfl
  | read addr entry =>
    obtain ⟨o₁, ho₁⟩ := Option.isSome_iff_exists.1 hv
    have hrun : (Change.read addr entry).run s = s.setStateObject addr (entry.apply o₁) := by
      rw [Change.run, ContractCall.cache, ho₁]
    rw [hrun]
    refine ⟨?_, ⟨[], rfl, by simp⟩, rfl⟩
    by_cases ha : m.addr = addr
    · subst ha
      obtain rfl := Option.some.inj (ho.symm.trans ho₁)
      have hd : (entry.apply o).deleted = false := by
        rw [← deleted_of_object ho]
        cases entry <;> rfl
      rw [shown_of_object (object_setStateObject_self hd), ← hhas]
      cases entry <;> rfl
    · rw [shown_of_object ((object_setStateObject_of_ne ha).trans ho), hhas]
  | context entry =>
    refine ⟨h, ⟨entry.toList, rfl, fun e he => ?_⟩, rfl⟩
    exact not_replaces_of_context (hv.1 e (Option.mem_toList.1 he)) m.addr

/-- Only `CreateAccount` puts another object in the place of an account. -/
theorem reset_of_mem_changes {chs : List Change} (h : c.changes s = .ok chs)
    {addr : Address} (hmem : .reset addr ∈ chs) : c = .contract (.createAccount addr) := by
  have hactions : ∀ acts : List DbAction, Change.reset addr ∉ acts.map .action := by simp
  have hthere : ∀ a ch, ch ≠ .reset addr → Change.reset addr ∉ ContractCall.ifThere s a ch := by
    intro a ch hch
    rw [ContractCall.ifThere]
    split
    · simpa using hch.symm
    · simp
  cases c with
  | staking c =>
    cases ha : c.actions s with
    | error => simp [DbCall.changes, ha, Except.map] at h
    | ok acts =>
      simp only [DbCall.changes, ha, Except.map, Except.ok.injEq] at h
      exact absurd (h ▸ hmem) (hactions acts)
  | contract c =>
    cases c with
    | createAccount =>
      cases h
      rw [List.mem_singleton] at hmem
      split at hmem
      · rw [Change.reset.inj hmem]
      · simp at hmem
    | setCode | setState =>
      cases h
      exact absurd hmem (hactions _)
    | suicide | getState | getByUser | getRewardBalanceByDelegateAddress =>
      cases h
      exact absurd hmem (hthere _ _ (by simp))
    | subRefund =>
      simp only [DbCall.changes, ContractCall.changes] at h
      split at h
      · simp at h
      · cases h
        simp at hmem
    | addPreimage =>
      cases h
      split at hmem
      · simp at hmem
      · simp at hmem
    | _ =>
      cases h
      simp at hmem

theorem Extends.call (hc : c.exec s = .ok s')
    (hne : c ≠ .contract (.createAccount m.addr)) (h : m.shown s = true) : m.Extends s s' := by
  obtain ⟨chs, hchs, hvalid, rfl⟩ := DbCall.exec_eq_ok.1 hc
  have hreset : ∀ addr, .reset addr ∈ chs → addr ≠ m.addr := by
    rintro addr hmem rfl
    exact hne (reset_of_mem_changes hchs hmem)
  clear hchs hc
  have hrefl : m.Extends s s := ⟨h, ⟨[], rfl, by simp⟩, rfl⟩
  induction chs generalizing s with
  | nil => exact hrefl
  | cons ch _ ih =>
    have hstep : m.Extends s (ch.run s) :=
      .change hvalid.1 (fun addr hch => hreset addr (by simp [hch])) h
    refine hstep.trans (ih hstep.shown hvalid.2 (fun addr hmem => hreset addr ?_) ?_)
    · exact List.mem_cons_of_mem ch hmem
    · exact ⟨hstep.shown, ⟨[], rfl, by simp⟩, rfl⟩

/-- `CreateAccount` over the account loses the mark. -/
theorem not_shown_createAccount (h : m.shown s = true) :
    m.shown (s.createAccount m.addr) = false := by
  obtain ⟨_, ho, -⟩ := exists_of_shown h
  rw [JournaledDB.createAccount, ho]
  simp only
  rw [shown_of_object (object_putNew_self rfl)]
  simp [Edit.apply, StateObject.new, MarkCache.has]

/-! ## Going back -/

theorem undo_object (he : ¬ Replaces m.addr e) (hu : undo e s = .ok s')
    (ho : s.object m.addr = some o) :
    ∃ o', s'.object m.addr = some o' ∧ (o'.tx m.kind).trie = (o.tx m.kind).trie ∧
      (m.txHash ∈ (o'.tx m.kind).dirty ↔
        m.txHash ∈ (o.tx m.kind).dirty ∧ e ≠ .addTXChange m.kind m.addr m.txHash) := by
  have hd := deleted_of_object ho
  rcases undo_cases hu with ⟨_, rfl, hne⟩ | ⟨addr, _, dirty, habout, hp, -, rfl⟩
  · exact ⟨o, ho, rfl, by simp [hne]⟩
  by_cases ha : m.addr = addr
  · subst ha
    have hself : ∀ {x : StateObject}, x.deleted = false → ({ s with
        stateObjects := Function.update s.stateObjects m.addr (some x)
        stateObjectsDirty := dirty } : JournaledDB).object m.addr = some x :=
      fun hx => object_setStateObject_self hx
    cases hp with
    | create | reset => exact absurd rfl he
    | suicide _ _ hx =>
      obtain rfl := Option.some.inj (ho.symm.trans hx)
      exact ⟨_, hself hd, rfl, by simp [Edit.apply]⟩
    | touch _ _ hx =>
      obtain rfl := Option.some.inj (ho.symm.trans hx)
      exact ⟨_, hself hd, rfl, by simp⟩
    | addTX kind _ hx =>
      obtain rfl := Option.some.inj (ho.symm.trans hx)
      refine ⟨_, hself hd, ?_⟩
      by_cases hk : m.kind = kind
      · subst hk
        simp only [StateObject.setPending, Function.update_self, Finset.mem_erase, true_and]
        rw [and_comm]
        simp [eq_comm]
      · simp [StateObject.setPending, Function.update_of_ne hk, Ne.symm hk]
    | change _ hx =>
      obtain rfl := Option.some.inj (ho.symm.trans hx)
      exact ⟨_, hself (by simp [hd]), by simp, by simp⟩
  · have hother : e ≠ .addTXChange m.kind m.addr m.txHash := by
      rintro rfl
      exact ha (Option.some.inj habout)
    refine ⟨o, ?_, rfl, by simp [hother]⟩
    rw [← ho]
    exact object_congr (Function.update_of_ne ha ..) rfl

theorem undoAll_object {log : List JournalEntry} (hlog : ∀ e ∈ log, ¬ Replaces m.addr e)
    (hu : UndoLog.undoAll undo log s = .ok s') (ho : s.object m.addr = some o) :
    ∃ o', s'.object m.addr = some o' ∧ (o'.tx m.kind).trie = (o.tx m.kind).trie ∧
      (m.txHash ∈ (o'.tx m.kind).dirty ↔
        m.txHash ∈ (o.tx m.kind).dirty ∧ .addTXChange m.kind m.addr m.txHash ∉ log) := by
  induction log generalizing s o with
  | nil =>
    cases hu
    exact ⟨o, ho, rfl, by simp⟩
  | cons e _ ih =>
    rw [UndoLog.undoAll] at hu
    cases he : undo e s with
    | error => simp [he, bind, Except.bind] at hu
    | ok =>
      rw [he] at hu
      obtain ⟨_, ho₁, htrie₁, hdirty₁⟩ := undo_object (hlog e (List.mem_cons_self ..)) he ho
      obtain ⟨o₂, ho₂, htrie₂, hdirty₂⟩ :=
        ih (fun e' he' => hlog e' (List.mem_cons_of_mem e he')) hu ho₁
      refine ⟨o₂, ho₂, htrie₂.trans htrie₁, ?_⟩
      rw [hdirty₂, hdirty₁, List.mem_cons, not_or, and_assoc, ne_comm]

/-! ## Writing -/

theorem has_flush {c : MarkCache} (hc : c.has h = true) :
    c.flush.has h = true ↔ h.head? ≠ some 0 := by
  rw [has_iff]
  simp [MarkCache.flush, Finset.mem_union.1 (mem_union_of_has hc)]

theorem shown_finalise {b : Bool} (h : s.finalise b = .ok s') (hs : m.shown s = true) :
    m.shown s' = true ↔ (m.addr ∈ s.stateObjectsDirty →
      m.Readable ∧ ∀ o, s.stateObjects m.addr = some o → o.clears b = false) := by
  obtain ⟨o, ho, hhas⟩ := exists_of_shown hs
  by_cases ha : m.addr ∈ s.stateObjectsDirty
  · obtain ⟨_, ho₁, -⟩ := (flushPanic_eq_none.1 (flushPanic_of_finalise h)).1 m.addr ha
    rcases object_eq_some.1 ho with ⟨hcached, hd⟩ | ⟨hnone, -⟩
    · simp only [ha, true_imp_iff, hcached, Option.some.injEq, forall_eq']
      have hobj : s'.stateObjects m.addr = some (o.finalised b) := by
        rw [stateObjects_finalise_of_dirty h ha, hcached]
        rfl
      by_cases hc : o.clears b = true
      · simp [shown, object, hobj, StateObject.finalised, hc]
      have hlive : s'.object m.addr = some o.update := by
        rw [object, hobj]
        simp [StateObject.finalised, hc, StateObject.update, hd]
      rw [shown_of_object hlive]
      simp only [hc, and_true]
      exact has_flush hhas
    · rw [hnone] at ho₁
      simp at ho₁
  · have hlive : s'.object m.addr = some o := by
      rw [← ho]
      exact object_congr (stateObjects_finalise_of_clean h ha) (accounts_finalise_of_clean h ha)
    simp [shown_of_object hlive, hhas, ha]

theorem shown_trie (s : JournaledDB) : m.shown (.new s.trie) = true ↔ m.Stored s :=
  shown_new s.trie

/-- `Commit` keeps the mark, in memory and at the root, if and only if it is safe. -/
theorem shown_commit {b : Bool} (h : s.commit b = .ok s') (hs : m.shown s = true) :
    (m.shown s' = true ∧ m.shown (.new s'.trie) = true) ↔
      ∀ o, s.stateObjects m.addr = some o →
        if m.addr ∈ s.stateObjectsDirty then m.Readable ∧ o.clears b = false
        else m.Stored s ∧ o.suicided = false := by
  obtain ⟨o, ho, hhas⟩ := exists_of_shown hs
  rw [shown_trie]
  rcases object_eq_some.1 ho with ⟨hcached, hd⟩ | ⟨hnone, st, hst, rfl⟩
  · simp only [hcached, Option.some.injEq, forall_eq']
    have hobj : s'.stateObjects m.addr = some (s.committed b m.addr o) := by
      rw [stateObjects_commit h, hcached]
      rfl
    by_cases ha : m.addr ∈ s.stateObjectsDirty
    · simp only [if_pos ha]
      have hacc := accounts_commit_of_dirty h hcached ha
      by_cases hc : o.clears b = true
      · simp [shown, object, hobj, committed, ha, StateObject.finalised, hc]
      have hlive : s'.object m.addr = some o.update := by
        rw [object, hobj]
        simp [committed, ha, StateObject.finalised, hc, StateObject.update, hd]
      have hwritten : o.written b = some o.update.stored := by
        rw [StateObject.written, if_neg hc]
      have hstored : m.Stored s' ↔ m.Readable := by
        rw [Stored, hacc, hwritten]
        exact and_iff_left ⟨_, rfl, mem_union_of_has hhas⟩
      rw [hstored, shown_of_object hlive]
      simp only [hc, and_true]
      rw [and_iff_right_of_imp]
      exact (has_flush hhas).2
    · simp only [if_neg ha]
      cases hsui : o.suicided with
      | true => simp [shown, object, hobj, committed, ha, hsui]
      | false =>
        have hlive : s'.object m.addr = some o := by
          rw [object, hobj]
          simp [committed, ha, hsui, hd]
        have hacc := accounts_commit_of_clean h hcached ha hsui
        rw [shown_of_object hlive, Stored, hacc, ← Stored]
        simp [hhas]
  · have hobj : s'.stateObjects m.addr = none := by
      rw [stateObjects_commit h, hnone]
      rfl
    have hacc := accounts_commit_of_none h hnone
    have hlive : s'.object m.addr = some (.load st) := by
      rw [← ho]
      exact object_congr (hobj.trans hnone.symm) hacc
    have hread := (has_iff _ _).1 hhas
    simp only [StateObject.load, Finset.notMem_empty, false_or] at hread
    simp only [hnone, reduceCtorEq, false_imp_iff, implies_true, iff_true]
    exact ⟨by rw [shown_of_object hlive, hhas], hread.2, st, hacc.trans hst, hread.1⟩

/-! ## Steps -/

/-- What holds as long as the mark is found. -/
structure Held (m : TxMark) (t : MarkedDB) : Prop where
  shows : m.Shows t
  /-- Nothing that was journaled since the mark replaces the account. -/
  newer : ∃ newer older, t.db.journal = newer ++ older ∧ (∀ e ∈ newer, ¬ Replaces m.addr e) ∧
    ∀ r ∈ t.db.revisions.valid, t.firstSnapshot ≤ r.1 → older.length ≤ r.2

variable {t t' : MarkedDB}

theorem Held.start (m : TxMark) (s : OpenDB) : m.Held (.start m s) := by
  obtain ⟨o, ho⟩ : ∃ o, (s.db.getOrNewStateObject m.addr).object m.addr = some o :=
    ⟨_, object_getOrNewStateObject s.db m.addr⟩
  have hobj : (m.add s.db).object m.addr =
      some (o.setPending m.kind (insert m.txHash (o.tx m.kind).dirty)) := by
    have hd : o.deleted = false := deleted_of_object ho
    rw [add, markTX_of_object ho]
    exact object_setStateObject_self hd
  have hrev : (m.add s.db).revisions = s.db.revisions := by
    rw [add, markTX_of_object ho, getOrNewStateObject]
    split <;> rfl
  refine ⟨⟨?_, fun h => Bool.noConfusion h⟩, [], (m.add s.db).journal, rfl, by simp, ?_⟩
  · change m.shown (m.add s.db) = true
    rw [shown_of_object hobj, has_iff]
    simp [StateObject.setPending]
  · intro r hr hle
    change r ∈ (m.add s.db).revisions.valid at hr
    rw [hrev] at hr
    have hlt := s.db.revisions.lt_next r hr
    have hle' : s.db.revisions.nextRevisionId ≤ r.1 := hle
    omega

/-- After the journal was cleared there is nothing to go back to. -/
theorem Held.of_cleared (hs : m.Shows t) (hj : t.db.journal = [])
    (hr : t.db.revisions.valid = []) : m.Held t :=
  ⟨hs, [], [], hj, by simp, by simp [hr]⟩

/-- `CreateAccount` is the one call that is not safe. -/
theorem safe_call_iff : m.Safe t (.call c) ↔ c ≠ .contract (.createAccount m.addr) := by
  cases c with
  | staking => simp [Safe]
  | contract c => cases c <;> simp [Safe]

theorem Held.call (h : m.Held t) {db : JournaledDB} (hdb : c.exec t.db = .ok db) :
    (m.Shows { t with db := db } ↔ m.Safe t (.call c)) ∧
      (m.Safe t (.call c) → m.Held { t with db := db }) := by
  obtain ⟨newer, older, hjournal, hnewer, hrev⟩ := h.newer
  rw [safe_call_iff]
  by_cases hc : c = .contract (.createAccount m.addr)
  · subst hc
    cases hdb
    refine ⟨iff_of_false ?_ fun hne => hne rfl, fun hne => absurd rfl hne⟩
    rintro ⟨hshown, -⟩
    exact absurd hshown (by simp [not_shown_createAccount h.shows.1])
  · have hext := Extends.call hdb hc h.shows.1
    have hshows : m.Shows { t with db := db } := ⟨hext.shown, h.shows.2⟩
    refine ⟨iff_of_true hshows hc, fun _ => ⟨hshows, ?_⟩⟩
    obtain ⟨entries, hentries, hkeep⟩ := hext.journal
    refine ⟨entries ++ newer, older, ?_, fun e he => ?_, ?_⟩
    · rw [List.append_assoc, ← hjournal]
      exact hentries
    · rcases List.mem_append.1 he with he | he
      · exact hkeep e he
      · exact hnewer e he
    · change ∀ r ∈ db.revisions.valid, _
      rw [hext.revisions]
      exact hrev

theorem Held.snapshot (h : m.Held t) : m.Held { t with db := t.db.snapshot } := by
  obtain ⟨newer, older, hjournal, hnewer, hrev⟩ := h.newer
  refine ⟨h.shows, newer, older, hjournal, hnewer, fun r hr hle => ?_⟩
  rcases List.mem_append.1 hr with hr | hr
  · exact hrev r hr hle
  · rw [List.mem_singleton.1 hr]
    simp [hjournal]

theorem Held.revertToSnapshot (h : m.Held t) {revid : Nat} {db : JournaledDB}
    (hfirst : t.firstSnapshot ≤ revid) (hdb : t.db.revertToSnapshot revid = .ok db) :
    (m.Shows { t with db := db } ↔ m.Safe t (.revertToSnapshot revid)) ∧
      (m.Safe t (.revertToSnapshot revid) → m.Held { t with db := db }) := by
  obtain ⟨newer, older, hjournal, hnewer, hrev⟩ := h.newer
  obtain ⟨journalIndex, u, hvalid, hundone, hu, rfl⟩ := revertToSnapshot_eq_ok hdb
  have hcount : t.db.journal.length - journalIndex ≤ newer.length := by
    have hle : older.length ≤ journalIndex := hrev _ hvalid hfirst
    rw [hjournal, List.length_append]
    omega
  generalize t.db.journal.length - journalIndex = k at hcount hundone
  have hlog : ∀ e ∈ t.db.undone revid, ¬ Replaces m.addr e := by
    intro e he
    rw [hundone, hjournal, List.take_append_of_le_length hcount] at he
    exact hnewer e (List.mem_of_mem_take he)
  obtain ⟨o, ho, hhas⟩ := exists_of_shown h.shows.1
  obtain ⟨_, ho', htrie, hdirty⟩ := undoAll_object hlog hu ho
  have hshown : m.shown u = true ↔ m.Safe t (.revertToSnapshot revid) := by
    have hsafe : m.Safe t (.revertToSnapshot revid) ↔
        .addTXChange m.kind m.addr m.txHash ∉ t.db.undone revid ∨
          m.Readable ∧ m.txHash ∈ (o.tx m.kind).trie := by
      simp [Safe, ho]
    have hmem := (has_iff _ _).1 hhas
    rw [shown_of_object ho', has_iff, htrie, hdirty, hsafe, Readable]
    constructor
    · rintro (⟨-, hkept⟩ | ⟨ht, hr⟩)
      · exact .inl hkept
      · exact .inr ⟨hr, ht⟩
    · rintro (hkept | ⟨hr, ht⟩)
      · exact hmem.imp (fun hd => ⟨hd, hkept⟩) id
      · exact .inr ⟨ht, hr⟩
  have hiff : m.Shows { t with db := { u with
      journal := t.db.journal.drop k
      revisions := t.db.revisions.take (t.db.revisions.search revid) } } ↔
        m.Safe t (.revertToSnapshot revid) := by
    rw [← hshown]
    exact and_iff_left h.shows.2
  refine ⟨hiff, fun hsafe => ⟨hiff.2 hsafe, newer.drop k, older, ?_, fun e he => ?_, ?_⟩⟩
  · change t.db.journal.drop k = _
    rw [hjournal, List.drop_append_of_le_length hcount]
  · exact hnewer e (List.mem_of_mem_drop he)
  · exact fun r hr hle => hrev r (List.mem_of_mem_take hr) hle

/-- **One step.**  The mark is found after it if and only if it is safe. -/
theorem Held.step (h : m.Held t) {step : DbStep} (hkeeps : step.Keeps t)
    (hrun : step.runMarked t = .ok t') :
    (m.Shows t' ↔ m.Safe t step) ∧ (m.Safe t step → m.Held t') := by
  obtain ⟨_, hs', rfl⟩ := map_eq_ok.1 hrun
  cases step with
  | call =>
    obtain ⟨db, hdb, rfl⟩ := map_eq_ok.1 hs'
    exact h.call hdb
  | snapshot =>
    cases hs'
    exact ⟨iff_of_true h.shows trivial, fun _ => h.snapshot⟩
  | revertToSnapshot =>
    obtain ⟨db, hdb, rfl⟩ := map_eq_ok.1 hs'
    exact h.revertToSnapshot hkeeps hdb
  | finalise b =>
    obtain ⟨db, hdb, rfl⟩ := map_eq_ok.1 hs'
    have hiff : m.Shows { t with db := db } ↔ m.Safe t (.finalise b) :=
      (and_iff_left h.shows.2).trans (shown_finalise hdb h.shows.1)
    exact ⟨hiff, fun hsafe => .of_cleared (hiff.2 hsafe) (journal_finalise hdb) (valid_finalise hdb)⟩
  | commit b =>
    obtain ⟨db, hdb, rfl⟩ := map_eq_ok.1 hs'
    have hiff : m.Shows ⟨⟨db, db.trie⟩, t.firstSnapshot, true⟩ ↔ m.Safe t (.commit b) := by
      refine Iff.trans ?_ (shown_commit hdb h.shows.1)
      exact and_congr_right fun _ => forall_prop_of_true rfl
    exact ⟨hiff, fun hsafe => .of_cleared (hiff.2 hsafe) (journal_commit hdb) (valid_commit hdb)⟩
  | reopen =>
    cases hs'
    have hshown := h.shows.2 hkeeps
    have hshows : m.Shows ⟨.ofRoot t.root, 0, t.committed⟩ := ⟨hshown, fun _ => hshown⟩
    exact ⟨iff_of_true hshows trivial, fun _ => .of_cleared hshows rfl rfl⟩

theorem persists_iff (h : m.Held t) (steps : List DbStep) :
    m.Persists t steps ↔ m.SafeRun t steps := by
  induction steps generalizing t with
  | nil => exact iff_of_true h.shows trivial
  | cons step _ ih =>
    constructor
    · rintro ⟨-, hrest⟩ hkeeps t' ht'
      obtain ⟨hiff, hheld⟩ := h.step hkeeps ht'
      have hp := hrest hkeeps t' ht'
      have hsafe := hiff.1 hp.shows
      exact ⟨hsafe, (ih (hheld hsafe)).1 hp⟩
    · intro hsafe
      refine ⟨h.shows, fun hkeeps t' ht' => ?_⟩
      obtain ⟨hstep, hrest⟩ := hsafe hkeeps t' ht'
      exact (ih ((h.step hkeeps ht').2 hstep)).2 hrest

/-- **When a mark persists.**  From any state, the mark is found throughout a run that does not take
it back if and only if every step of the run is safe. -/
theorem marks_persist_iff (m : TxMark) (s : OpenDB) (steps : List DbStep) :
    m.Persists (.start m s) steps ↔ m.SafeRun (.start m s) steps :=
  persists_iff (.start m s) steps

end TxMark

/-! ## A hash that begins with a zero -/

namespace LeadingZero

/-- One of the 256 hashes has a zero in front. -/
def mark : TxMark := ⟨.tx1, [1], 0 :: List.replicate 31 1⟩

/-- The mark is gone after `Finalise`. -/
theorem mark_is_lost : ¬ mark.Persists (.start mark (.ofRoot .empty)) [.finalise false] := by
  rintro ⟨-, h⟩
  obtain ⟨t', ht', hlost⟩ : ∃ t', (DbStep.finalise false).runMarked (.start mark (.ofRoot .empty)) = .ok t' ∧
      mark.shown t'.db = false := by
    refine ⟨_, rfl, ?_⟩
    decide +kernel
  have hshown := (h trivial t' ht').1
  rw [hlost] at hshown
  simp at hshown

end LeadingZero

end NeatPoS
