import NeatPoS.Core.AddressSets
import NeatPoS.Core.Registration

/-!
# Updates that are not written

An account that has changed and is not dirty is forgotten when the state is opened again.  One would
want it to be an invariant that there are none.  It is not.

* An object tells the database that it is dirty by means of a callback which is used once.  `Commit`
  takes the object off the dirty ones and does not give it a new callback.  Whatever a setter does
  to it later is lost, and the same is true after the first touch of an object has been undone.
* `AddTX1` and `AddTX3` do not use the callback at all.

`updates_not_lost` is that a run in which this does not happen stays registered, and that what it
commits is found again.
-/

set_option autoImplicit false

namespace NeatPoS

open JournaledDB Stateful

namespace JournaledDB

/-- The state `s` was committed as `s'`, and opening it again gives it back, less the accounts that
`Commit` has deleted as empty, even if there is a reward in them. -/
structure Reproduces (s s' : JournaledDB) : Prop where
  kept : ∀ a, s'.object a ≠ none →
    ((new s'.trie).object a).map StateObject.content = (s.object a).map StateObject.content
  deleted : ∀ a, s'.object a = none → (new s'.trie).object a = none
  sets : ∀ n, ((new s'.trie).sets n).addresses = (s.sets n).addresses
  reward : (new s'.trie).sideChainRewardPerBlock.get = s.sideChainRewardPerBlock.get

end JournaledDB

/-! ## The condition -/

namespace JournaledDB

/-- A change that is registered, and stays so when other changes are undone. -/
def SafeChange (s : JournaledDB) : Change → Prop
  | .action (.edit addr e) => ∀ o, s.object addr = some o →
    (o.onDirty = true ∨ addr ∈ s.stateObjectsDirty) ∧ (o.Restores e ∨ NoTouch addr s.journal)
  | .action (.touch addr) => ∀ o, s.object addr = some o →
    o.onDirty = true → addr ∉ s.stateObjectsDirty
  | .action (.markTX kind addr txHash) => ∀ o, s.object addr = some o →
    (o.onDirty = false ∧ addr ∈ s.stateObjectsDirty) ∧
      (txHash ∉ (o.tx kind).dirty ∨ NoTouch addr s.journal)
  | .suicide addr => ∀ o, s.object addr = some o →
    o.onDirty = true ∨ addr ∈ s.stateObjectsDirty
  | _ => True

/-- A commit that writes everything as it is in memory, the accounts that it deletes apart. -/
structure SafeCommit (b : Bool) (s : JournaledDB) : Prop where
  objects : ∀ a ∈ s.stateObjectsDirty, ∀ o, s.stateObjects a = some o → o.clears b = false →
    o.deleted = false ∧ o.NonNegative ∧ o.NoLeadingZero
  sets : ∀ n, (s.sets n).Flushable

/-- A step that loses no update. -/
def SafeStep (s : JournaledDB) : DbStep → Prop
  | .call c => ∀ chs, c.changes s = .ok chs → Change.AllAt SafeChange s chs
  | .commit b => s.SafeCommit b
  | _ => True

end JournaledDB

/-- Every step of a run is safe in the state it is executed in. -/
def SafeSteps : OpenDB → List DbStep → Prop
  | _, [] => True
  | s, step :: steps =>
    ∀ s', step.run s = .ok s' → s.db.SafeStep step ∧ SafeSteps s' steps

/-- Throughout a run, every account that differs from the trie is dirty, and what is committed is
found when the state is opened again. -/
def Lossless : OpenDB → List DbStep → Prop
  | s, [] => s.db.Registered
  | s, step :: steps => s.db.Registered ∧ ∀ s', step.run s = .ok s' →
    (∀ b, step = .commit b → s.db.Reproduces s'.db) ∧ Lossless s' steps

/-! ## The invariant -/

/-- An object that the journal keeps has nothing in its caches that is not in its tries, unless it was
refused there. -/
def JournalEntry.PrevRefused : JournalEntry → Prop
  | resetObjectChange _ prev => prev.Refused
  | _ => True

/-- The block reward is in the trie, or will be written. -/
structure CachedAmount.Sound (c : CachedAmount) : Prop where
  dirty : c.dirty = true → c.cache.isSome
  clean : c.dirty = false → c.cache = none ∨ c.stored = c.cache

variable {c : CachedAmount}

theorem CachedAmount.Sound.write (h : c.Sound) : c.write.Sound := by
  rw [CachedAmount.write]
  split
  · rename_i hd
    exact ⟨h.dirty, fun hn => absurd hd (by simp [show c.dirty = false from hn])⟩
  · exact h

theorem CachedAmount.Sound.commit (h : c.Sound) : c.commit.Sound := by
  refine ⟨fun hn => Bool.noConfusion hn, fun _ => ?_⟩
  cases hd : c.dirty with
  | true =>
    obtain ⟨_, hx⟩ := Option.isSome_iff_exists.1 (h.dirty hd)
    right
    simp [CachedAmount.commit, CachedAmount.write, hd, hx]
  | false =>
    have hclean := h.clean hd
    simpa [CachedAmount.commit, CachedAmount.write, hd] using hclean

/-- What is stored is what was read. -/
theorem CachedAmount.Sound.stored_commit (h : c.Sound) : c.commit.stored.getD 0 = c.get := by
  cases hd : c.dirty with
  | true =>
    obtain ⟨_, hx⟩ := Option.isSome_iff_exists.1 (h.dirty hd)
    simp [CachedAmount.commit, CachedAmount.write, CachedAmount.get, hd, hx]
  | false =>
    rcases h.clean hd with hc | hc
    · simp [CachedAmount.commit, CachedAmount.write, CachedAmount.get, hd, hc]
    · simp only [CachedAmount.commit, CachedAmount.write, CachedAmount.get, hd, Bool.false_eq_true,
        if_false, hc]
      cases c.cache <;> rfl

/-- What holds throughout a run that loses no update. -/
structure Recoverable (s : JournaledDB) : Prop where
  good : ∀ a, GoodAt a s.journal s
  refused : ∀ a o, s.stateObjects a = some o → o.Refused
  prevRefused : ∀ e ∈ s.journal, e.PrevRefused
  clean : ∀ n, (s.sets n).Clean
  reward : s.sideChainRewardPerBlock.Sound

namespace Recoverable

variable {s s' : JournaledDB} {a addr : Address} {o : StateObject}

theorem registered (h : Recoverable s) : s.Registered := by
  intro a hns
  by_contra hd
  exact hns ((h.good a).inv.synced hd)

theorem refused_of_object (h : ∀ a o, s.stateObjects a = some o → o.Refused)
    (ho : s.object a = some o) : o.Refused := by
  rcases object_eq_some.1 ho with ⟨hcached, -⟩ | ⟨-, st, -, rfl⟩
  · exact h a o hcached
  · exact StateObject.refused_load st

theorem refused_object (h : Recoverable s) (ho : s.object a = some o) : o.Refused :=
  refused_of_object h.refused ho

/-- With nothing in the journal there is only the present state to look at. -/
theorem of_cleared (hsynced : ∀ a, a ∉ s.stateObjectsDirty → s.Synced a)
    (hrefused : ∀ a o, s.stateObjects a = some o → o.Refused) (hjournal : s.journal = [])
    (hclean : ∀ n, (s.sets n).Clean) (hreward : s.sideChainRewardPerBlock.Sound) : Recoverable s := by
  refine ⟨fun a => ?_, hrefused, by simp [hjournal], hclean, hreward⟩
  rw [hjournal]
  exact ⟨hsynced a, by simp⟩

theorem new (root : StateTrie) : Recoverable (.new root) :=
  .of_cleared (fun _ _ => by rw [Synced]; exact Option.map_map ..) (by simp [JournaledDB.new]) rfl
    (fun _ _ => .inl rfl) ⟨fun hd => Bool.noConfusion hd, fun _ => .inl rfl⟩

/-! ## Changes -/

section

variable (h : Recoverable s)
include h

/-- A change of one account, with its entry in the journal. -/
theorem differsAt {e : JournalEntry} (hd : DiffersAt addr [e] o s s')
    (he : e.about = some addr) (ho : o.Refused) (hprev : e.PrevRefused)
    (hgood : GoodAt addr (e :: s.journal) s') : Recoverable s' := by
  refine ⟨fun a => ?_, fun a p hp => ?_, fun e' he' => ?_, ?_, ?_⟩
  · rw [hd.journal]
    by_cases ha : a = addr
    · rw [ha]
      exact hgood
    · refine (hd.goodAt ha (h.good a)).cons_of_ne ?_
      rw [he]
      exact fun heq => ha (Option.some.inj heq).symm
  · rw [hd.stateObjects] at hp
    by_cases ha : a = addr
    · rw [ha, Function.update_self] at hp
      rwa [← Option.some.inj hp]
    · rw [Function.update_of_ne ha] at hp
      exact h.refused a p hp
  · rw [hd.journal] at he'
    rcases List.mem_cons.1 he' with rfl | he'
    · exact hprev
    · exact h.prevRefused e' he'
  · rw [hd.sets]
    exact h.clean
  · rw [hd.reward]
    exact h.reward

/-- Nothing was journaled about an account that is not there or still has its callback. -/
theorem no_entries (hn : ∀ o, s.object a = some o → o.onDirty = true) :
    ∀ e ∈ s.journal, e.about ≠ some a := by
  intro e he ha
  obtain ⟨o, ho, hod⟩ := (h.good a).inv.used ⟨e, he, ha⟩
  exact absurd (hn o ho) (by simp [hod])

theorem edit (ho : s.object addr = some o) {e : Edit}
    (hsafe : s.SafeChange (.action (.edit addr e))) : Recoverable (s.edit addr e) := by
  obtain ⟨hreg, hrestores⟩ := hsafe o ho
  have hdel := deleted_of_object ho
  rw [edit_of_object ho]
  have hdirty : addr ∈ ((s.log (.change addr (e.prev o))).mark addr
      (e.apply o)).stateObjectsDirty := by
    rcases hreg with hreg | hreg <;> simp [mark, log, hreg]
  have hobj := object_mark_self (s := s.log (.change addr (e.prev o))) (a := addr)
    (o := e.apply o) (by simp [hdel])
  refine h.differsAt (differsAt_mark ..) rfl ?_ trivial ?_
  · have hr := (h.refused_object ho).apply e
    exact ⟨hr.storage, hr.proxied, hr.reward⟩
  refine .cons_of_dirty rfl hobj rfl hdirty fun t ht => ?_
  rw [undo_change hobj, Except.ok.injEq] at ht
  subst ht
  refine (h.good addr).below (.of_objects ho (object_mark_self (by simp [hdel])) rfl ?_ rfl ?_)
  · rw [stateObjectsDirty_mark_of_used (by simp)]
    exact fun _ => hdirty
  rcases hrestores with hr | hno
  · left
    have hcongr : ((e.prev o).apply { e.apply o with onDirty := false }).memory =
        ((e.prev o).apply (e.apply o)).memory := by
      refine StateObject.memory_apply_congr ?_ (e.prev o)
      rfl
    exact hcongr.trans (StateObject.memory_restore hr)
  · right
    rw [stateObjectsDirty_mark_of_used (by simp)]
    exact ⟨hdirty, hno⟩

theorem suicide (ho : s.object addr = some o)
    (hsafe : s.SafeChange (.suicide addr)) : Recoverable (s.suicide addr) := by
  have hdel := deleted_of_object ho
  have hrun : s.suicide addr =
      (s.log (.suicideChange addr o.suicided (o.data.amount .balance))).mark addr
        { (Edit.amount .balance 0).apply o with suicided := true } := by
    rw [JournaledDB.suicide, ho]
  have hdirty : addr ∈ (s.suicide addr).stateObjectsDirty := by
    rw [hrun]
    rcases hsafe o ho with hreg | hreg <;> simp [mark, log, Edit.apply, hreg]
  have hobj : (s.suicide addr).object addr =
      some { (Edit.amount .balance 0).apply o with suicided := true, onDirty := false } := by
    rw [hrun]
    exact object_mark_self hdel
  have hr := h.refused_object ho
  have hdiff : DiffersAt addr [.suicideChange addr o.suicided (o.data.amount .balance)]
      { (Edit.amount .balance 0).apply o with suicided := true, onDirty := false } s
        (s.suicide addr) := by
    rw [hrun]
    exact differsAt_mark _ _ _ { (Edit.amount .balance 0).apply o with suicided := true }
  refine h.differsAt hdiff rfl ⟨hr.storage, hr.proxied, hr.reward⟩ trivial ?_
  refine .cons_of_dirty rfl hobj rfl hdirty fun t ht => ?_
  rw [undo_suicideChange hobj, Except.ok.injEq] at ht
  subst ht
  refine (h.good addr).below (.of_objects ho (object_mark_self hdel) (by rw [hrun]; rfl) ?_ rfl ?_)
  · rw [stateObjectsDirty_mark_of_used rfl]
    exact fun _ => hdirty
  · left
    exact StateObject.memory_restore (e := .amount .balance 0) trivial

theorem touch (ho : s.object addr = some o)
    (hsafe : s.SafeChange (.action (.touch addr))) : Recoverable (s.touch addr) := by
  have hdel := deleted_of_object ho
  have hrun := touch_of_object ho
  have hobj : (s.touch addr).object addr = some { o with touched := true, onDirty := false } := by
    rw [hrun]
    exact object_mark_self hdel
  have haccounts : (s.touch addr).accounts addr = s.accounts addr := by
    rw [hrun]
    rfl
  have hmemory : ((s.touch addr).object addr).map StateObject.memory =
      (s.object addr).map StateObject.memory := by
    rw [hobj, ho]
    rfl
  have hdirty : addr ∈ (s.touch addr).stateObjectsDirty ↔
      o.onDirty = true ∨ addr ∈ s.stateObjectsDirty := by
    rw [hrun]
    cases hod : o.onDirty <;> simp [mark, log]
  have hr := h.refused_object ho
  have hdiff : DiffersAt addr [.touchChange addr o.touched !o.onDirty]
      { o with touched := true, onDirty := false } s (s.touch addr) := by
    rw [hrun]
    exact differsAt_mark _ _ _ { o with touched := true }
  refine h.differsAt hdiff rfl ⟨hr.storage, hr.proxied, hr.reward⟩ trivial ?_
  refine ⟨⟨fun hn => ?_, fun _ => ⟨_, hobj, rfl⟩⟩, fun _ t ht => ?_, fun hne => absurd rfl hne⟩
  · rw [hdirty, not_or] at hn
    exact synced_of_memory haccounts hmemory ((h.good addr).inv.synced hn.2)
  by_cases hundo : (!o.touched && addr != ripemd) = true
  · rw [undo_touchChange hobj hundo, Except.ok.injEq] at ht
    subst ht
    have hback : ∀ d : Finset Address, ({ (s.touch addr).setStateObject addr
        { o with touched := o.touched, onDirty := false } with
          stateObjectsDirty := d } : JournaledDB).object addr = some { o with onDirty := false } :=
      fun d => object_setStateObject_self hdel
    cases hod : o.onDirty with
    | true =>
      -- The callback is gone and the account is not dirty, but nothing else was journaled of it.
      refine .of_no_entries (h.no_entries fun p hp => ?_) fun _ => ?_
      · rwa [← Option.some.inj (ho.symm.trans hp)]
      · refine synced_of_memory haccounts ?_ ((h.good addr).inv.synced (hsafe o ho hod))
        rw [hback, ho]
        rfl
    | false =>
      refine (h.good addr).below (.of_objects ho (hback _) haccounts (fun hd => ?_) rfl (.inl rfl))
      exact hdirty.2 (.inr hd)
  · rw [Bool.not_eq_true] at hundo
    rw [undo_touchChange_skip hundo, Except.ok.injEq] at ht
    subst ht
    exact (h.good addr).below
      (.of_objects ho hobj haccounts (fun hd => hdirty.2 (.inr hd)) rfl (.inl rfl))

theorem markTX (ho : s.object addr = some o) {kind : TxKind} {txHash : TxHash}
    (hsafe : s.SafeChange (.action (.markTX kind addr txHash))) :
    Recoverable (s.markTX kind addr txHash) := by
  obtain ⟨⟨hod, hdirty⟩, hpending⟩ := hsafe o ho
  have hdel := deleted_of_object ho
  rw [markTX_of_object ho]
  have hobj := object_setStateObject_self (s := s.log (.addTXChange kind addr txHash)) (a := addr)
    (o := o.setPending kind (insert txHash (o.tx kind).dirty)) hdel
  have hr := h.refused_object ho
  refine h.differsAt (differsAt_set ..) rfl ⟨hr.storage, hr.proxied, hr.reward⟩ trivial ?_
  refine .cons_of_dirty rfl hobj hod hdirty fun t ht => ?_
  rw [undo_addTXChange hobj, Except.ok.injEq] at ht
  subst ht
  refine (h.good addr).below (.of_objects ho (object_setStateObject_self hdel) rfl id hod ?_)
  rcases hpending with hnew | hno
  · left
    simp [StateObject.memory, StateObject.setPending, Finset.erase_insert hnew]
  · exact .inr ⟨hdirty, hno⟩

theorem create (ho : s.object addr = none) :
    Recoverable ((s.log (.createObjectChange addr)).putNew addr .new) := by
  refine h.differsAt (differsAt_putNew ..) rfl StateObject.refused_new trivial ?_
  refine .cons_of_dirty rfl (object_putNew_self rfl) rfl (by simp [putNew]) fun t ht => ?_
  cases ht
  refine .of_no_entries (h.no_entries fun p hp => ?_) fun _ => ?_
  · rw [ho] at hp
    simp at hp
  · simp only [Synced, object, Function.update_self, Option.map_map]
    rfl

theorem reset (ho : s.object addr = some o) : Recoverable (s.createAccount addr) := by
  have hrun : s.createAccount addr = (s.log (.resetObjectChange addr o)).putNew addr
      ((Edit.amount .balance (o.data.amount .balance)).apply .new) := by
    rw [createAccount, ho]
  have hdel := deleted_of_object ho
  rw [hrun]
  refine h.differsAt (differsAt_putNew ..) rfl (StateObject.refused_new.apply _)
    (h.refused_object ho) ?_
  refine .cons_of_dirty rfl (object_putNew_self rfl) rfl (by simp [putNew]) fun t ht => ?_
  cases ht
  have hback := object_setStateObject_self (s := (s.log (.resetObjectChange addr o)).putNew addr
    ((Edit.amount .balance (o.data.amount .balance)).apply .new)) (a := addr) hdel
  refine (h.good addr).below ⟨rfl, fun _ => by simp [setStateObject, putNew], fun p hp hpd => ?_,
    .inl (by rw [hback, ho])⟩
  obtain rfl := Option.some.inj (hback.symm.trans hp)
  exact ⟨o, ho, hpd⟩

theorem read (ho : s.object addr = some o) (entry : EntryRead) :
    Recoverable (s.setStateObject addr (entry.apply o)) := by
  have hflags : (entry.apply o).deleted = o.deleted ∧ (entry.apply o).onDirty = o.onDirty := by
    cases entry <;> exact ⟨rfl, rfl⟩
  have hobj := object_setStateObject_self (s := s) (a := addr)
    (hflags.1.trans (deleted_of_object ho))
  have hd : DiffersAt addr [] (entry.apply o) s (s.setStateObject addr (entry.apply o)) :=
    ⟨rfl, rfl, fun _ _ => Iff.rfl, rfl, rfl, rfl, rfl⟩
  refine ⟨fun a => ?_, fun a p hp => ?_, h.prevRefused, h.clean, h.reward⟩
  · by_cases ha : a = addr
    · subst ha
      refine (h.good a).below ⟨rfl, id, fun p hp hpd => ?_, .inl ?_⟩
      · obtain rfl := Option.some.inj (hobj.symm.trans hp)
        exact ⟨o, ho, hflags.2 ▸ hpd⟩
      · rw [hobj, ho, Option.map_some, Option.map_some, StateObject.memory_read]
    · exact hd.goodAt ha (h.good a)
  · by_cases ha : a = addr
    · subst ha
      simp only [setStateObject, Function.update_self, Option.some.injEq] at hp
      rw [← hp]
      exact (h.refused_object ho).read entry
    · simp only [setStateObject, Function.update_of_ne ha] at hp
      exact h.refused a p hp

/-- A state that has the same accounts, and nothing about them in the journal. -/
theorem same_accounts {entries : List JournalEntry}
    (haccounts : s'.accounts = s.accounts) (hobjects : s'.stateObjects = s.stateObjects)
    (hdirty : s'.stateObjectsDirty = s.stateObjectsDirty)
    (hjournal : s'.journal = entries ++ s.journal) (hentries : ∀ e ∈ entries, e.OfContext)
    (hclean : ∀ n, (s'.sets n).Clean) (hreward : s'.sideChainRewardPerBlock.Sound) : Recoverable s' := by
  have habout : ∀ e : JournalEntry, e.OfContext → e.about = none ∧ e.PrevRefused := by
    intro e he
    cases e <;> first | exact ⟨rfl, trivial⟩ | exact he.elim
  refine ⟨fun a => ?_, fun a o ho => h.refused a o (hobjects ▸ ho), fun e he => ?_, hclean, hreward⟩
  · have hgood : GoodAt a s.journal s' := (h.good a).below
      (.of_eq (by rw [hobjects]) (by rw [haccounts]) (by rw [hdirty]; exact id))
    rw [hjournal]
    clear hjournal
    induction entries with
    | nil => exact hgood
    | cons e _ ih =>
      refine (ih fun e' he' => hentries e' (List.mem_cons_of_mem e he')).cons_of_ne ?_
      rw [(habout e (hentries e (List.mem_cons_self ..))).1]
      simp
  · rw [hjournal] at he
    rcases List.mem_append.1 he with he | he
    · exact (habout e (hentries e he)).2
    · exact h.prevRefused e he

/-- **A safe change keeps the invariant.** -/
theorem change {ch : Change} (hv : ch.Valid s) (hsafe : s.SafeChange ch) :
    Recoverable (ch.run s) := by
  cases ch with
  | action act =>
    cases act with
    | create => exact h.create hv
    | edit =>
      obtain ⟨o, ho⟩ := Option.isSome_iff_exists.1 hv.1
      exact h.edit ho hsafe
    | touch =>
      obtain ⟨o, ho⟩ := Option.isSome_iff_exists.1 hv
      exact h.touch ho hsafe
    | markTX =>
      obtain ⟨o, ho⟩ := Option.isSome_iff_exists.1 hv
      exact h.markTX ho hsafe
    | changeSet name c =>
      refine h.same_accounts rfl rfl rfl (List.nil_append _).symm (by simp) (fun n => ?_) h.reward
      by_cases hn : n = name
      · subst hn
        simp only [Change.run, DbAction.run, Function.update_self]
        exact (h.clean n).apply c
      · simp only [Change.run, DbAction.run, Function.update_of_ne hn]
        exact h.clean n
  | suicide =>
    obtain ⟨o, ho⟩ := Option.isSome_iff_exists.1 hv
    exact h.suicide ho hsafe
  | reset =>
    obtain ⟨o, ho⟩ := Option.isSome_iff_exists.1 hv
    exact h.reset ho
  | read addr entry =>
    obtain ⟨o, ho⟩ := Option.isSome_iff_exists.1 hv
    have hrun : (Change.read addr entry).run s = s.setStateObject addr (entry.apply o) := by
      rw [Change.run, ContractCall.cache, ho]
    rw [hrun]
    exact h.read ho entry
  | context _ _ reward =>
    refine h.same_accounts rfl rfl rfl rfl (fun e he => hv.1 e (Option.mem_toList.1 he)) h.clean ?_
    change reward.Sound
    rcases hv.2 with rfl | ⟨_, rfl⟩
    · exact h.reward
    · exact ⟨fun _ => rfl, fun hd => Bool.noConfusion hd⟩

/-! ## Going back -/

omit h in
theorem undo_refused {e : JournalEntry} {t : JournaledDB} (he : e.PrevRefused)
    (hu : undo e s = .ok t) (h : ∀ a o, s.stateObjects a = some o → o.Refused) :
    ∀ a o, t.stateObjects a = some o → o.Refused := by
  rcases undo_cases hu with ⟨_, rfl, -⟩ | ⟨addr, p, _, -, hp, -, rfl⟩
  · exact h
  have hrefused : ∀ o, p = some o → o.Refused := by
    intro o ho
    cases hp with
    | create => simp at ho
    | reset =>
      cases ho
      exact he
    | suicide _ _ hx | touch _ _ hx | addTX _ _ hx =>
      cases ho
      have hr := refused_of_object h hx
      exact ⟨hr.storage, hr.proxied, hr.reward⟩
    | change prev hx =>
      cases ho
      have hr := (refused_of_object h hx).apply prev
      exact ⟨hr.storage, hr.proxied, hr.reward⟩
  intro a o ho
  by_cases ha : a = addr
  · rw [ha] at ho
    exact hrefused o (by simpa using ho)
  · exact h a o (by simpa [ha] using ho)

theorem revertToSnapshot {revid : Nat} (hr : s.revertToSnapshot revid = .ok s') :
    Recoverable s' := by
  obtain ⟨journalIndex, u, -, hundone, hu, rfl⟩ := revertToSnapshot_eq_ok hr
  generalize s.journal.length - journalIndex = k at hundone
  have hsplit : s.undone revid ++ s.journal.drop k = s.journal := by
    rw [hundone]
    exact List.take_append_drop k s.journal
  have hmem : ∀ e ∈ s.undone revid, e ∈ s.journal := fun e he =>
    hsplit ▸ List.mem_append_left _ he
  have hframe : u.sets = s.sets ∧ u.sideChainRewardPerBlock = s.sideChainRewardPerBlock :=
    UndoLog.undoAll_preserves (I := fun t => t.sets = s.sets ∧
      t.sideChainRewardPerBlock = s.sideChainRewardPerBlock)
      (fun e _ t t' ht hI => ⟨(undo_frame ht).2.1.trans hI.1, (undo_frame ht).2.2.trans hI.2⟩)
      hu ⟨rfl, rfl⟩
  refine ⟨fun a => ?_, ?_, fun e he => h.prevRefused e (List.mem_of_mem_drop he), ?_, ?_⟩
  · have hgood : GoodAt a (s.undone revid ++ s.journal.drop k) s := by
      rw [hsplit]
      exact h.good a
    exact (hgood.undoAll hu).below (.of_eq rfl rfl id)
  · exact UndoLog.undoAll_preserves
      (I := fun t => ∀ a o, t.stateObjects a = some o → o.Refused)
      (fun e he t t' ht hI => undo_refused (h.prevRefused e (hmem e he)) ht hI) hu h.refused
  · change ∀ n, (u.sets n).Clean
    rw [hframe.1]
    exact h.clean
  · change u.sideChainRewardPerBlock.Sound
    rw [hframe.2]
    exact h.reward

/-! ## Writing -/

variable {b : Bool}

theorem finalise (hf : s.finalise b = .ok s') : Recoverable s' := by
  refine .of_cleared (fun a ha => ?_) (fun a o ho => ?_) (journal_finalise hf) (fun n => ?_) ?_
  · rw [stateObjectsDirty_finalise hf] at ha
    have hacc := accounts_finalise_of_clean hf ha
    rw [Synced, object_congr (stateObjects_finalise_of_clean hf ha) hacc, hacc]
    exact (h.good a).inv.synced ha
  · by_cases ha : a ∈ s.stateObjectsDirty
    · rw [stateObjects_finalise_of_dirty hf ha] at ho
      obtain ⟨p, hp, rfl⟩ := Option.map_eq_some_iff.1 ho
      exact (h.refused a p hp).finalised b
    · rw [stateObjects_finalise_of_clean hf ha] at ho
      exact h.refused a o ho
  · rw [eq_of_finalise hf]
    exact (h.clean n).write
  · rw [eq_of_finalise hf]
    exact h.reward.write

/-- One account in `Commit`: afterwards it is as in the trie, and if it is still there it has not
changed. -/
theorem commit_account (hsafe : s.SafeCommit b) (hc : s.commit b = .ok s') (a : Address) :
    s'.Synced a ∧ (s'.object a ≠ none →
      (s'.object a).map StateObject.content = (s.object a).map StateObject.content) := by
  cases ho : s.stateObjects a with
  | none =>
    have hnone : s'.stateObjects a = none := by
      rw [stateObjects_commit hc, ho]
      rfl
    have hacc := accounts_commit_of_none hc ho
    refine ⟨?_, fun _ => by rw [object_congr (hnone.trans ho.symm) hacc]⟩
    simp only [Synced, object, hnone, Option.map_map]
    rfl
  | some o =>
    have hobj : s'.stateObjects a = some (s.committed b a o) := by
      rw [stateObjects_commit hc, ho]
      rfl
    have hgone : ∀ p : StateObject, s'.stateObjects a = some p → p.deleted = true →
        s'.object a = none := by
      intro p hp hd
      simp [object, hp, hd]
    by_cases ha : a ∈ s.stateObjectsDirty
    · have hacc := accounts_commit_of_dirty hc ho ha
      rw [committed, if_pos ha] at hobj
      cases hclears : o.clears b with
      | true =>
        rw [StateObject.finalised, if_pos hclears] at hobj
        rw [StateObject.written, if_pos hclears] at hacc
        have hnone := hgone _ hobj rfl
        exact ⟨by rw [Synced, hnone, hacc]; rfl, fun hne => absurd hnone hne⟩
      | false =>
        obtain ⟨hdel, hnn, hzero⟩ := hsafe.objects a ha o ho hclears
        rw [StateObject.finalised, if_neg (by simp [hclears])] at hobj
        rw [StateObject.written, if_neg (by simp [hclears])] at hacc
        have hlive : s'.object a = some o.update := object_eq_some.2 (.inl ⟨hobj, hdel⟩)
        have hold : s.object a = some o := object_eq_some.2 (.inl ⟨ho, hdel⟩)
        refine ⟨?_, fun _ => ?_⟩
        · rw [Synced, hlive, hacc, Option.map_some, Option.map_some,
            StateObject.content_load_stored (h.refused a o ho) hnn]
        · rw [hlive, hold, Option.map_some, Option.map_some, StateObject.content_update hzero]
    · rw [committed, if_neg ha] at hobj
      cases hsui : o.suicided with
      | true =>
        rw [if_pos hsui] at hobj
        have hnone := hgone _ hobj rfl
        have hacc := accounts_commit_of_suicided hc ho hsui
        exact ⟨by rw [Synced, hnone, hacc]; rfl, fun hne => absurd hnone hne⟩
      | false =>
        rw [if_neg (by simp [hsui])] at hobj
        have hacc := accounts_commit_of_clean hc ho ha hsui
        have hsame := object_congr (hobj.trans ho.symm) hacc
        refine ⟨?_, fun _ => by rw [hsame]⟩
        rw [Synced, hsame, hacc]
        exact (h.good a).inv.synced ha

theorem commit (hsafe : s.SafeCommit b) (hc : s.commit b = .ok s') : Recoverable s' := by
  refine .of_cleared (fun a _ => (h.commit_account hsafe hc a).1) (fun a o ho => ?_)
    (journal_commit hc) (fun n => ?_) ?_
  · rw [stateObjects_commit hc] at ho
    obtain ⟨p, hp, rfl⟩ := Option.map_eq_some_iff.1 ho
    have hr := h.refused a p hp
    rw [committed]
    split
    · exact hr.finalised b
    · split
      · exact ⟨hr.storage, hr.proxied, hr.reward⟩
      · exact hr
  · rw [eq_of_commit hc]
    exact (h.clean n).commit
  · rw [eq_of_commit hc]
    exact h.reward.commit

/-- **What is committed is found again.** -/
theorem reproduces (hsafe : s.SafeCommit b) (hc : s.commit b = .ok s') : s.Reproduces s' := by
  have hopened : ∀ a, ((JournaledDB.new s'.trie).object a).map StateObject.content =
      (s'.object a).map StateObject.content := by
    intro a
    rw [(h.commit_account hsafe hc a).1]
    exact Option.map_map ..
  refine ⟨fun a ha => ?_, fun a ha => ?_, fun n => ?_, ?_⟩
  · rw [hopened a]
    exact (h.commit_account hsafe hc a).2 ha
  · have hnone := hopened a
    rw [ha] at hnone
    exact Option.map_eq_none_iff.1 hnone
  · have hsets : s'.sets n = (s.sets n).commit := by
      rw [eq_of_commit hc]
      rfl
    rw [← CachedSet.addresses_write_iff.2 (hsafe.sets n), ← CachedSet.addresses_commit,
      ← (h.clean n).stored_commit, ← hsets]
    exact CachedSet.addresses_of_empty rfl
  · have hreward : s'.sideChainRewardPerBlock = s.sideChainRewardPerBlock.commit := by
      rw [eq_of_commit hc]
      rfl
    rw [← h.reward.stored_commit, ← hreward]
    rfl

end

/-! ## Runs -/

/-- **One step.** -/
theorem step {t t' : OpenDB} {step : DbStep} (h : Recoverable t.db) (hsafe : t.db.SafeStep step)
    (hrun : step.run t = .ok t') :
    Recoverable t'.db ∧ ∀ b, step = .commit b → t.db.Reproduces t'.db := by
  cases step with
  | call =>
    obtain ⟨db, hdb, rfl⟩ := map_eq_ok.1 hrun
    obtain ⟨chs, hchs, hvalid, rfl⟩ := DbCall.exec_eq_ok.1 hdb
    refine ⟨?_, by simp⟩
    exact Change.runAll_preserves (fun s ch hch hs => hs.change hch.1 hch.2)
      (hvalid.and (hsafe chs hchs)) h
  | snapshot =>
    cases hrun
    refine ⟨?_, by simp⟩
    exact h.same_accounts rfl rfl rfl (List.nil_append _).symm (by simp) h.clean h.reward
  | revertToSnapshot =>
    obtain ⟨db, hdb, rfl⟩ := map_eq_ok.1 hrun
    exact ⟨h.revertToSnapshot hdb, by simp⟩
  | finalise =>
    obtain ⟨db, hdb, rfl⟩ := map_eq_ok.1 hrun
    exact ⟨h.finalise hdb, by simp⟩
  | commit =>
    obtain ⟨db, hdb, rfl⟩ := map_eq_ok.1 hrun
    exact ⟨h.commit hsafe hdb, fun _ _ => h.reproduces hsafe hdb⟩
  | reopen =>
    cases hrun
    exact ⟨.new t.root, by simp⟩

theorem lossless {t : OpenDB} (h : Recoverable t.db) {steps : List DbStep} (hsafe : SafeSteps t steps) :
    Lossless t steps := by
  induction steps generalizing t with
  | nil => exact h.registered
  | cons step _ ih =>
    refine ⟨h.registered, fun t' ht' => ?_⟩
    obtain ⟨hstep, hrest⟩ := hsafe t' ht'
    obtain ⟨hsound, hrepro⟩ := h.step hstep ht'
    exact ⟨hrepro, ih hsound hrest⟩

end Recoverable

/-- **No update is lost in a safe run.**  From any root, if every step is safe in the state it is
executed in, then every account that differs from the trie is dirty at any time, and what is
committed is found when the state is opened again. -/
theorem updates_not_lost (root : StateTrie) (steps : List DbStep)
    (hsafe : SafeSteps (.ofRoot root) steps) : Lossless (.ofRoot root) steps :=
  (Recoverable.new root).lossless hsafe

/-! ## After the commit -/

namespace AfterCommit

/-- The balance of an account is set. -/
def setBalance (amount : Int) : DbStep := .call (.staking (.set .balance [1] amount))

/-- The balance is set, committed, and set again: the second time it is not registered. -/
theorem update_is_lost :
    ¬ Lossless (.ofRoot .empty) [setBalance 1, .commit false, setBalance 2] := by
  rintro ⟨-, h₁⟩
  obtain ⟨s₁, hs₁, s₂, hs₂, s₃, hs₃, hnot⟩ : ∃ s₁, (setBalance 1).run (.ofRoot .empty) = .ok s₁ ∧
      ∃ s₂, (DbStep.commit false).run s₁ = .ok s₂ ∧ ∃ s₃, (setBalance 2).run s₂ = .ok s₃ ∧
        ¬ s₃.db.Registered := by
    refine ⟨_, rfl, _, rfl, _, rfl, fun hreg => ?_⟩
    refine absurd (hreg [1] fun hsync => ?_) (by decide +kernel)
    have hbalance := congrArg (Option.map fun c => c.data.amount .balance) hsync
    exact absurd hbalance (by decide +kernel)
  obtain ⟨-, -, h₂⟩ := h₁ s₁ hs₁
  obtain ⟨-, -, h₃⟩ := h₂ s₂ hs₂
  exact hnot (h₃ s₃ hs₃).2

theorem get_ofBase_none {κ α : Type} [DecidableEq κ] (k : κ) :
    (EntryCache.ofBase fun _ : κ => (none : Option α)).get k = none := by
  simp [EntryCache.ofBase, EntryCache.get, EntryCache.committed]

/-- If the state is opened again after the commit, the second one is registered too. -/
theorem updates_not_lost_reopened :
    Lossless (.ofRoot .empty) [setBalance 1, .commit false, .reopen, setBalance 2] := by
  refine updates_not_lost _ _ fun s₁ hs₁ => ?_
  cases hs₁
  refine ⟨fun chs hchs => ?_, fun s₂ hs₂ => ?_⟩
  · cases hchs
    exact ⟨trivial, fun o _ => ⟨.inr (by decide), .inl trivial⟩, trivial⟩
  cases hs₂
  refine ⟨⟨fun a ha o ho _ => ?_, fun n hd => Bool.noConfusion hd⟩, fun s₃ hs₃ => ?_⟩
  · obtain rfl : a = [1] := Finset.mem_singleton.1 ha
    cases ho
    refine ⟨rfl, ⟨fun user => ?_, fun user => ?_⟩, fun kind hash hmem => ?_⟩
    · exact congrArg (fun v => AccountProxiedBalance.encodable (Option.getD v ⟨0, 0, 0⟩))
        (get_ofBase_none user)
    · exact (congrArg (Option.getD · (0 : Int)) (get_ofBase_none user)).ge
    · exact absurd hmem (Finset.notMem_empty hash)
  cases hs₃
  refine ⟨trivial, fun s₄ hs₄ => ⟨fun chs hchs => ?_, trivial⟩⟩
  cases hchs
  refine ⟨fun o ho => ⟨.inl ?_, .inl trivial⟩, trivial⟩
  cases ho
  rfl

end AfterCommit

end NeatPoS
