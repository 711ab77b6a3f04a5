import NeatPoS.Core.AddressSets
import NeatPoS.Core.Registration

/-!
# What `RevertToSnapshot` restores

After `Snapshot`, some calls and `RevertToSnapshot`, every getter should return what it returned
before, and the root should be the same.  For most calls this is so.  It fails where something is
not in the journal, or where undoing it leaves a trace that shows.

* The sets of addresses and their flags are not journaled.
* The entry of a user that had none is set to nil rather than removed.  `Finalise` then panics.
* A deposit in a new side chain leaves the chain in the list.
* A hash that was pending already is no longer pending after its second entry is undone.
* An account whose first setter is undone stays dirty.  This shows in the root if writing the
  account as it is would change the trie: an account that counts as empty is deleted.

`revert_restores` is that there is nothing else.  The comparison of the state on the way back with
the one on the way there is the relation `AsGood`, and the induction is the one of
`Lib/UndoLog.lean`.
-/

set_option autoImplicit false

namespace NeatPoS

open JournaledDB Stateful

/-! ## Objects -/

namespace StateObject

/-- The object `x` is `o` again, as far as can be seen. -/
structure RestoredTo (o x : StateObject) : Prop where
  data : x.data = o.data
  rooted : x.rooted = o.rooted
  tx : x.tx = o.tx
  suicided : x.suicided = o.suicided
  storage : o.storage.Restored (fun _ => True) x.storage
  proxied : o.proxied.Restored (· ≠ none) x.proxied
  reward : o.reward.Restored (· ≠ none) x.reward

variable {o x : StateObject}

theorem RestoredTo.refl (o : StateObject) : o.RestoredTo o :=
  ⟨rfl, rfl, rfl, rfl, .refl _ _, .refl _ _, .refl _ _⟩

theorem RestoredTo.view (h : o.RestoredTo x) : JournaledDB.view x = JournaledDB.view o := by
  have hcopies : x.copies = o.copies := by
    rw [copies, copies, h.proxied.hasNil.1, h.proxied.hasNil.2, h.reward.hasNil.1,
      h.reward.hasNil.2]
  have hvacant := propext h.reward.vacant_iff
  rw [h.reward.base] at hvacant
  simp only [JournaledDB.view, hcopies, hvacant, h.data, h.rooted, h.tx, h.suicided,
    h.storage.base, h.storage.get, h.storage.committed, h.storage.iterated, h.proxied.base,
    h.proxied.get, h.proxied.iterated, h.reward.base, h.reward.get, h.reward.iterated]

theorem RestoredTo.clears (h : o.RestoredTo x) (b : Bool) : x.clears b = o.clears b := by
  rw [StateObject.clears, StateObject.clears, StateObject.empty, StateObject.empty, h.data,
    h.suicided]

theorem RestoredTo.flushPanic (h : o.RestoredTo x) (b : Bool) :
    x.flushPanic b = o.flushPanic b := by
  rw [StateObject.flushPanic, StateObject.flushPanic, h.clears, h.data, h.proxied.hasNil.1,
    h.reward.hasNil.1]

theorem RestoredTo.written (h : o.RestoredTo x) (b : Bool) : x.written b = o.written b := by
  have hstored : x.update.stored = o.update.stored := by
    simp only [stored, update, EntryCache.flush, h.data, h.tx, h.storage.flushedBase,
      h.proxied.flushedBase, h.reward.flushedBase]
  rw [StateObject.written, StateObject.written, h.clears, hstored]

/-- Undoing the setter leaves no trace that shows: the side chain is not new, and the entry is not
nil. -/
def Restorable (o : StateObject) : Edit → Prop
  | .sideChainDepositBalance chainId _ => ∃ c ∈ o.data.sideChainDepositBalance, c.1 = chainId
  | .accountProxiedBalance key _ => key ∈ o.proxied.dirty ∨ o.proxied.committed key ≠ none
  | .delegateRewardBalance key _ => key ∈ o.reward.dirty ∨ o.reward.committed key ≠ none
  | _ => True

/-- **Undoing a setter.** -/
theorem RestoredTo.undo {e : Edit} (h : (e.apply o).RestoredTo x) (hr : o.Restorable e) :
    o.RestoredTo ((e.prev o).apply x) := by
  obtain ⟨hdata, hrooted, htx, hsuicided, hstorage, hproxied, hreward⟩ := h
  cases e with
  | amount =>
    refine ⟨?_, hrooted, htx, hsuicided, hstorage, hproxied, hreward⟩
    simp [Edit.apply, Edit.prev, hdata]
  | sideChainDepositBalance chainId y =>
    have hlist : setSideChainDeposit chainId (o.sideChainDepositBalance chainId)
        (setSideChainDeposit chainId y o.data.sideChainDepositBalance) =
          o.data.sideChainDepositBalance := setSideChainDeposit_restore y hr
    refine ⟨?_, hrooted, htx, hsuicided, hstorage, hproxied, hreward⟩
    simp only [Edit.apply, Edit.prev, hdata, hlist]
  | state =>
    exact ⟨hdata, hrooted, htx, hsuicided, hstorage.set (.inr trivial), hproxied, hreward⟩
  | accountProxiedBalance =>
    exact ⟨hdata, hrooted, htx, hsuicided, hstorage, hproxied.set hr, hreward⟩
  | delegateRewardBalance =>
    exact ⟨hdata, hrooted, htx, hsuicided, hstorage, hproxied, hreward.set hr⟩
  | nonce | code | candidate | pubkey | commission | banned =>
    exact ⟨by simp [Edit.apply, Edit.prev, hdata], hrooted, htx, hsuicided, hstorage, hproxied,
      hreward⟩

end StateObject

/-! ## Sets -/

/-- The call changes neither the set nor what will be written of it. -/
def SetCall.Harmless (c : CachedSet) : SetCall → Prop
  | mark addr => addr ∈ c.addresses ∧ (c.dirty = true → c.cache ≠ ∅)
  | clearByAddress addr => addr ∉ c.cache ∧ (c.dirty = true ∨ c.stored = some c.cache)
  | clear => c.cache = ∅ ∧ c.stored = none ∧ c.dirty = false
  | get => c.Flushable

namespace CachedSet

variable {c : CachedSet}

theorem stored_write (c : CachedSet) :
    c.write.stored = if c.dirty then some c.cache else c.stored := by
  rw [write]
  split <;> rfl

theorem stored_write_load (h : c.Flushable) : c.load.write.stored = c.write.stored := by
  by_cases hc : c.cache = ∅
  · have hload : c.load = { c with cache := c.stored.getD ∅ } := if_pos hc
    rw [hload, stored_write, stored_write]
    by_cases hd : c.dirty = true
    · simp [hd, hc, h hd hc]
    · simp [hd]
  · rw [load, if_neg hc]

theorem mark_of_mem {addr : Address} (h : addr ∈ c.addresses) : c.mark addr = c.load := by
  have hmem : addr ∈ c.load.cache := h
  exact if_pos hmem

theorem harmless {call : SetCall} (h : call.Harmless c) :
    (call.apply c).addresses = c.addresses ∧ (call.apply c).write.stored = c.write.stored := by
  cases call with
  | mark =>
    obtain ⟨hmem, hd⟩ := h
    rw [SetCall.apply, mark_of_mem hmem]
    exact ⟨addresses_load c, stored_write_load fun hdirty hc => absurd hc (hd hdirty)⟩
  | clearByAddress addr =>
    obtain ⟨hmem, hd⟩ := h
    have hsame : c.clearByAddress addr = { c with dirty := true } := by
      rw [clearByAddress, Finset.erase_eq_of_notMem hmem]
    rw [SetCall.apply, hsame]
    refine ⟨by rw [addresses, addresses, load, load]; split <;> rfl, ?_⟩
    rw [stored_write, stored_write]
    rcases hd with hd | hd
    · simp [hd]
    · by_cases hdirty : c.dirty = true <;> simp [hdirty, hd]
  | clear =>
    obtain ⟨hc, hs, hd⟩ := h
    refine ⟨?_, ?_⟩
    · rw [SetCall.apply, addresses_clear, addresses_of_empty hc, hs]
      rfl
    · simp [hd, hs, SetCall.apply, clear, write]
  | get => exact ⟨addresses_load c, stored_write_load h⟩

end CachedSet

/-! ## Actions -/

namespace JournaledDB

/-- Writing the account as it is does not change the trie, nor would it without the pending
hashes. -/
structure Settled (b : Bool) (s : JournaledDB) (a : Address) (o : StateObject) : Prop where
  panic : o.flushPanic b = none
  written : o.written b = s.accounts a
  pending : ∀ kind, (o.tx kind).dirty ⊆ (o.tx kind).trie

/-- If the account is dirty, there is an object to be written. -/
def Cached (s : JournaledDB) (a : Address) : Prop :=
  a ∈ s.stateObjectsDirty → (s.stateObjects a).isSome

/-- An action that undoing leaves no trace of, with the entries that were journaled since the
snapshot.  An account that was made since then may be changed in any way. -/
def SafeToUndo (b : Bool) (log : List JournalEntry) (s : JournaledDB) : DbAction → Prop
  | .create addr => s.accounts addr = none ∧ s.outcome b addr = (none, none)
  | .edit addr e => ∀ o, s.object addr = some o → .createObjectChange addr ∈ log ∨
    s.Cached addr ∧ o.Restorable e ∧
      (o.onDirty = true → addr ∈ s.stateObjectsDirty ∨ s.Settled b addr o)
  | .touch addr => ∀ o, s.object addr = some o → .createObjectChange addr ∈ log ∨
    s.Cached addr ∧ (o.onDirty = true →
      if (!o.touched && addr != ripemd) = true then addr ∉ s.stateObjectsDirty
      else addr ∈ s.stateObjectsDirty ∨ s.Settled b addr o)
  | .markTX kind addr txHash => ∀ o, s.object addr = some o → .createObjectChange addr ∈ log ∨
    s.Cached addr ∧ txHash ∉ (o.tx kind).dirty
  | .changeSet name c => c.Harmless (s.sets name)

end JournaledDB

/-! ## The state on the way back -/

/-- An account in a state `t` on the way back, and in the state `s` on the way there. -/
inductive Back (b : Bool) (t s : JournaledDB) (a : Address) : Prop
  | same (hobjects : t.stateObjects a = s.stateObjects a)
      (hdirty : a ∈ t.stateObjectsDirty ↔ a ∈ s.stateObjectsDirty)
  | dead (ht : t.object a = none) (hs : s.object a = none) (hout : t.outcome b a = s.outcome b a)
  | live (x o : StateObject) (hx : t.object a = some x) (ho : s.object a = some o)
      (hrestored : o.RestoredTo x) (harmed : x.onDirty = true → o.onDirty = true)
      (hcached : a ∈ s.stateObjectsDirty → s.stateObjects a = some o)
      (hcached' : a ∈ t.stateObjectsDirty → t.stateObjects a = some x)
      (hdirty : a ∈ s.stateObjectsDirty → a ∈ t.stateObjectsDirty)
      (hback : a ∈ t.stateObjectsDirty →
        a ∈ s.stateObjectsDirty ∨ o.onDirty = true ∧ s.Settled b a o)

/-- An account that was made since the snapshot is there; the others are as they were. -/
structure AsGoodAt (b : Bool) (log : List JournalEntry) (t s : JournaledDB) (a : Address) : Prop where
  created : .createObjectChange a ∈ log → (t.object a).isSome ∧ (s.object a).isSome
  old : .createObjectChange a ∉ log → Back b t s a

/-- The state on the way back is as good as the one on the way there. -/
structure AsGood (b : Bool) (log : List JournalEntry) (t s : JournaledDB) : Prop where
  accounts : t.accounts = s.accounts
  reward : t.sideChainRewardPerBlock = s.sideChainRewardPerBlock
  context : t.context = s.context
  sets : ∀ n, (t.sets n).addresses = (s.sets n).addresses ∧
    (t.sets n).write.stored = (s.sets n).write.stored
  account : ∀ a, AsGoodAt b log t s a

section
variable {b : Bool} {log log' : List JournalEntry} {s s' t t' : JournaledDB} {a addr : Address}
  {o x : StateObject}

theorem outcome_congr (hobjects : t.stateObjects a = s.stateObjects a)
    (haccounts : t.accounts a = s.accounts a)
    (hdirty : a ∈ t.stateObjectsDirty ↔ a ∈ s.stateObjectsDirty) :
    t.outcome b a = s.outcome b a := by
  rw [outcome, outcome, hobjects, haccounts]
  exact if_congr hdirty rfl rfl

namespace Back

theorem view (h : Back b t s a) (haccounts : t.accounts a = s.accounts a) :
    (t.object a).map JournaledDB.view = (s.object a).map JournaledDB.view := by
  cases h with
  | same hobjects => rw [object_congr hobjects haccounts]
  | dead ht hs => rw [ht, hs]
  | live _ _ hx ho hrestored => rw [hx, ho, Option.map_some, Option.map_some, hrestored.view]

theorem outcome (h : Back b t s a) (haccounts : t.accounts a = s.accounts a) :
    t.outcome b a = s.outcome b a := by
  cases h with
  | same hobjects hdirty => exact outcome_congr hobjects haccounts hdirty
  | dead _ _ hout => exact hout
  | live _ _ _ _ hrestored _ hcached hcached' hdirty hback =>
    by_cases ht : a ∈ t.stateObjectsDirty
    · rw [outcome_of_dirty (hcached' ht) ht, hrestored.flushPanic, hrestored.written]
      rcases hback ht with hs | ⟨-, hsettled⟩
      · rw [outcome_of_dirty (hcached hs) hs]
      · by_cases hs : a ∈ s.stateObjectsDirty
        · rw [outcome_of_dirty (hcached hs) hs]
        · rw [outcome_of_clean hs, hsettled.panic, hsettled.written]
    · rw [outcome_of_clean ht, outcome_of_clean fun hs => ht (hdirty hs), haccounts]

/-- The two objects of an account that is there and cached. -/
theorem objects (h : Back b t s a) (ho : s.stateObjects a = some o) (hd : o.deleted = false)
    (haccounts : t.accounts a = s.accounts a) :
    ∃ x, t.object a = some x ∧ o.RestoredTo x ∧ (x.onDirty = true → o.onDirty = true) ∧
      (a ∈ t.stateObjectsDirty → t.stateObjects a = some x) ∧
        (a ∈ s.stateObjectsDirty → a ∈ t.stateObjectsDirty) ∧
          (a ∈ t.stateObjectsDirty →
            a ∈ s.stateObjectsDirty ∨ o.onDirty = true ∧ s.Settled b a o) := by
  have hlive : s.object a = some o := object_eq_some.2 (.inl ⟨ho, hd⟩)
  cases h with
  | same hobjects hdirty =>
    refine ⟨o, ?_, .refl o, id, fun _ => hobjects.trans ho, hdirty.2,
      fun ht => .inl (hdirty.1 ht)⟩
    rw [object_congr hobjects haccounts, hlive]
  | dead _ hs =>
    rw [hlive] at hs
    simp at hs
  | live x _ hx hp hrestored harmed _ hcached' hdirty hback =>
    obtain rfl := Option.some.inj (hlive.symm.trans hp)
    exact ⟨x, hx, hrestored, harmed, hcached', hdirty, hback⟩

end Back

/-- Nothing has changed about another account. -/
theorem AsGoodAt.congr (h : AsGoodAt b log t s a) (hlog : .createObjectChange a ∈ log' ↔
      .createObjectChange a ∈ log)
    (ht : t'.stateObjects a = t.stateObjects a ∧ t'.accounts a = t.accounts a ∧
      (a ∈ t'.stateObjectsDirty ↔ a ∈ t.stateObjectsDirty))
    (hs : s'.stateObjects a = s.stateObjects a ∧ s'.accounts a = s.accounts a ∧
      (a ∈ s'.stateObjectsDirty ↔ a ∈ s.stateObjectsDirty)) : AsGoodAt b log' t' s' a := by
  obtain ⟨ht₁, ht₂, ht₃⟩ := ht
  obtain ⟨hs₁, hs₂, hs₃⟩ := hs
  have hto := object_congr ht₁ ht₂
  have hso := object_congr hs₁ hs₂
  refine ⟨fun hc => ?_, fun hc => ?_⟩
  · rw [hto, hso]
    exact h.created (hlog.1 hc)
  cases h.old fun hn => hc (hlog.2 hn) with
  | same hobjects hdirty =>
    exact .same (ht₁.trans (hobjects.trans hs₁.symm)) (ht₃.trans (hdirty.trans hs₃.symm))
  | dead hdt hds hout =>
    refine .dead (hto.trans hdt) (hso.trans hds) ?_
    rw [outcome_congr ht₁ ht₂ ht₃, outcome_congr hs₁ hs₂ hs₃, hout]
  | live x o hx ho hrestored harmed hcached hcached' hdirty hback =>
    refine .live x o (hto.trans hx) (hso.trans ho) hrestored harmed ?_ ?_ ?_ ?_
    · rw [hs₁, hs₃]
      exact hcached
    · rw [ht₁, ht₃]
      exact hcached'
    · rw [hs₃, ht₃]
      exact hdirty
    rw [hs₃, ht₃]
    intro ht
    rcases hback ht with hs | ⟨harmed, hpanic, hwritten, hpending⟩
    · exact .inl hs
    · exact .inr ⟨harmed, hpanic, hwritten.trans hs₂.symm, hpending⟩

/-! ## Undoing one action -/

theorem Cached.object (h : s.Cached a) (ho : s.object a = some o) (hd : a ∈ s.stateObjectsDirty) :
    s.stateObjects a = some o := by
  rcases object_eq_some.1 ho with ⟨hcached, -⟩ | ⟨hnone, -⟩
  · exact hcached
  · have hsome := h hd
    rw [hnone] at hsome
    simp at hsome

/-- One entry is undone, and it remains to look at its account. -/
theorem AsGood.undo_entry {e : JournalEntry} (h : AsGood b (e :: log) t s')
    (hd : DiffersAt addr [e] o s s') (he : e.about = some addr) (hu : undo e t = .ok t')
    (hcontext : t'.context = t.context) (hat : AsGoodAt b log t' s addr) : AsGood b log t' s := by
  obtain ⟨haccounts, hsets, hreward⟩ := undo_frame hu
  refine ⟨haccounts.trans (h.accounts.trans hd.accounts),
    hreward.trans (h.reward.trans hd.reward), hcontext.trans (h.context.trans hd.context),
    fun n => ?_, fun a => ?_⟩
  · rw [hsets, ← hd.sets]
    exact h.sets n
  by_cases ha : a = addr
  · rw [ha]
    exact hat
  have hne : e.about ≠ some a := by
    rw [he]
    exact fun heq => ha (Option.some.inj heq).symm
  obtain ⟨hs₁, hs₂, hs₃⟩ := hd.of_ne ha
  refine (h.account a).congr ?_ (undo_of_ne hne hu) ⟨hs₁.symm, hs₂.symm, hs₃.symm⟩
  rw [List.mem_cons, or_iff_right]
  rintro rfl
  exact hne rfl

theorem AsGood.undo_edit (ho : s.object addr = some o) {e : Edit}
    (hsafe : s.SafeToUndo b log (.edit addr e))
    (h : AsGood b (.change addr (e.prev o) :: log) t (s.edit addr e)) :
    ∃ t', undo (.change addr (e.prev o)) t = .ok t' ∧ AsGood b log t' s := by
  have hdel := deleted_of_object ho
  have hrun := edit_of_object ho e
  have hdiff : DiffersAt addr [.change addr (e.prev o)] { e.apply o with onDirty := false } s
      (s.edit addr e) := by
    rw [hrun]
    exact differsAt_mark ..
  have hobj : (s.edit addr e).stateObjects addr = some { e.apply o with onDirty := false } := by
    rw [hdiff.stateObjects, Function.update_self]
  have hdirty : addr ∈ (s.edit addr e).stateObjectsDirty ↔
      o.onDirty = true ∨ addr ∈ s.stateObjectsDirty := by
    rw [hrun]
    cases hod : o.onDirty <;> simp [mark, JournaledDB.log, hod]
  have haccounts : t.accounts addr = (s.edit addr e).accounts addr := by rw [h.accounts]
  by_cases hc : .createObjectChange addr ∈ log
  · obtain ⟨x, hx⟩ := Option.isSome_iff_exists.1
      ((h.account addr).created (List.mem_cons_of_mem _ hc)).1
    refine ⟨_, undo_change hx _, h.undo_entry hdiff rfl (undo_change hx _) rfl ?_⟩
    refine ⟨fun _ => ⟨?_, by simp [ho]⟩, fun hn => absurd hc hn⟩
    rw [object_mark_self (by simp [deleted_of_object hx])]
    rfl
  · obtain ⟨hcached, hrestorable, hsettled⟩ := (hsafe o ho).resolve_left hc
    have hback : Back b t (s.edit addr e) addr :=
      (h.account addr).old (by simpa using hc)
    obtain ⟨x, hx, hrestored, harmed, -, hsub, hsup⟩ := hback.objects hobj (by simp [hdel]) haccounts
    have hxd : x.onDirty = false := by
      by_contra hne
      exact absurd (harmed (by simpa using hne)) (by simp)
    refine ⟨_, undo_change hx _, h.undo_entry hdiff rfl (undo_change hx _) rfl ?_⟩
    refine ⟨fun hn => absurd hn hc, fun _ => ?_⟩
    have hundone : o.RestoredTo ((e.prev o).apply x) :=
      StateObject.RestoredTo.undo ⟨hrestored.data, hrestored.rooted, hrestored.tx,
        hrestored.suicided, hrestored.storage, hrestored.proxied, hrestored.reward⟩ hrestorable
    have hmark := stateObjectsDirty_mark_of_used (s := t) (a := addr) (o := (e.prev o).apply x)
      (by simp [hxd])
    refine .live { (e.prev o).apply x with onDirty := false } o
      (object_mark_self (by simp [deleted_of_object hx])) ho
      ⟨hundone.data, hundone.rooted, hundone.tx, hundone.suicided, hundone.storage,
        hundone.proxied, hundone.reward⟩ (fun hn => Bool.noConfusion hn)
      (fun hd => Cached.object hcached ho hd) (fun _ => Function.update_self ..) (fun hd => ?_)
      fun hd => ?_
    · rw [hmark]
      exact hsub (hdirty.2 (.inr hd))
    rw [hmark] at hd
    have hs := (hsup hd).resolve_right fun hn => Bool.noConfusion hn.1
    rcases hdirty.1 hs with hod | hs
    · rcases hsettled hod with hs | hset
      · exact .inl hs
      · exact .inr ⟨hod, hset⟩
    · exact .inl hs

theorem AsGood.undo_touch (ho : s.object addr = some o) (hsafe : s.SafeToUndo b log (.touch addr))
    (h : AsGood b (.touchChange addr o.touched (!o.onDirty) :: log) t (s.touch addr)) :
    ∃ t', undo (.touchChange addr o.touched (!o.onDirty)) t = .ok t' ∧ AsGood b log t' s := by
  have hdel := deleted_of_object ho
  have hrun := touch_of_object ho
  have hdiff : DiffersAt addr [.touchChange addr o.touched (!o.onDirty)]
      { o with touched := true, onDirty := false } s (s.touch addr) := by
    rw [hrun]
    exact differsAt_mark _ _ _ { o with touched := true }
  have hobj : (s.touch addr).stateObjects addr =
      some { o with touched := true, onDirty := false } := by
    rw [hdiff.stateObjects, Function.update_self]
  have hdirty : addr ∈ (s.touch addr).stateObjectsDirty ↔
      o.onDirty = true ∨ addr ∈ s.stateObjectsDirty := by
    rw [hrun]
    cases hod : o.onDirty <;> simp [mark, JournaledDB.log]
  have haccounts : t.accounts addr = (s.touch addr).accounts addr := by rw [h.accounts]
  -- The objects on the way back, and whether they are dirty.
  have hobjects : ∃ x, t.object addr = some x ∧ (.createObjectChange addr ∉ log →
      o.RestoredTo x ∧ x.onDirty = false ∧ (addr ∈ t.stateObjectsDirty →
        t.stateObjects addr = some x) ∧
          (addr ∈ t.stateObjectsDirty ↔ o.onDirty = true ∨ addr ∈ s.stateObjectsDirty)) := by
    by_cases hc : .createObjectChange addr ∈ log
    · obtain ⟨x, hx⟩ := Option.isSome_iff_exists.1
        ((h.account addr).created (List.mem_cons_of_mem _ hc)).1
      exact ⟨x, hx, fun hn => absurd hc hn⟩
    · have hback : Back b t (s.touch addr) addr := (h.account addr).old (by simpa using hc)
      obtain ⟨x, hx, hrestored, harmed, hcached', hsub, hsup⟩ := hback.objects hobj hdel haccounts
      refine ⟨x, hx, fun _ => ⟨⟨hrestored.data, hrestored.rooted, hrestored.tx, hrestored.suicided,
        hrestored.storage, hrestored.proxied, hrestored.reward⟩, ?_, hcached', ?_⟩⟩
      · by_contra hne
        exact absurd (harmed (by simpa using hne)) (by simp)
      · rw [← hdirty]
        exact ⟨fun hd => (hsup hd).resolve_right fun hn => Bool.noConfusion hn.1, hsub⟩
  obtain ⟨x, hx, hold⟩ := hobjects
  have hxdel := deleted_of_object hx
  by_cases hundo : (!o.touched && addr != ripemd) = true
  · refine ⟨_, undo_touchChange hx hundo _,
      h.undo_entry hdiff rfl (undo_touchChange hx hundo _) rfl ?_⟩
    have hback : ∀ d : Finset Address, ({ t.setStateObject addr { x with touched := o.touched } with
        stateObjectsDirty := d } : JournaledDB).object addr = some { x with touched := o.touched } :=
      fun d => object_setStateObject_self hxdel
    refine ⟨fun _ => ⟨by rw [hback]; rfl, by simp [ho]⟩, fun hc => ?_⟩
    obtain ⟨hrestored, hxd, -, hiff⟩ := hold hc
    obtain ⟨hcached, hfirst⟩ := (hsafe o ho).resolve_left hc
    refine .live { x with touched := o.touched } o (hback _) ho ⟨hrestored.data, hrestored.rooted,
      hrestored.tx, hrestored.suicided, hrestored.storage, hrestored.proxied, hrestored.reward⟩
      (fun hn => absurd hn (by simp [hxd])) (fun hd => Cached.object hcached ho hd)
      (fun _ => Function.update_self ..) (fun hd => ?_) fun hd => ?_
    · cases hod : o.onDirty with
      | true =>
        have hclean := hfirst hod
        rw [if_pos hundo] at hclean
        exact absurd hd hclean
      | false => exact hiff.2 (.inr hd)
    · cases hod : o.onDirty with
      | true => simp [hod] at hd
      | false =>
        rw [hod] at hd hiff
        exact .inl ((hiff.1 hd).resolve_left (by simp))
  · rw [Bool.not_eq_true] at hundo
    refine ⟨t, undo_touchChange_skip hundo _ t,
      h.undo_entry hdiff rfl (undo_touchChange_skip hundo _ t) rfl ?_⟩
    refine ⟨fun _ => ⟨by simp [hx], by simp [ho]⟩, fun hc => ?_⟩
    obtain ⟨hrestored, hxd, hcached', hiff⟩ := hold hc
    obtain ⟨hcached, hfirst⟩ := (hsafe o ho).resolve_left hc
    refine .live x o hx ho hrestored (fun hn => absurd hn (by simp [hxd]))
      (fun hd => Cached.object hcached ho hd) hcached' (fun hd => hiff.2 (.inr hd)) fun hd => ?_
    rcases hiff.1 hd with hod | hs
    · have hset := hfirst hod
      rw [if_neg (by simp [hundo])] at hset
      exact hset.imp id fun hset => ⟨hod, hset⟩
    · exact .inl hs

theorem StateObject.written_setPending {b : Bool} {kind : TxKind} {txHash : TxHash}
    (hmem : txHash ∈ (o.tx kind).trie) :
    (o.setPending kind (insert txHash (o.tx kind).dirty)).written b = o.written b := by
  have htx : ∀ k, ((o.setPending kind (insert txHash (o.tx kind).dirty)).tx k).flush =
      (o.tx k).flush := by
    intro k
    by_cases hk : k = kind
    · subst hk
      simp only [StateObject.setPending, Function.update_self, MarkCache.flush,
        Finset.union_insert, MarkCache.mk.injEq, and_true]
      exact Finset.insert_eq_of_mem (Finset.mem_union_left _ hmem)
    · simp only [StateObject.setPending, Function.update_of_ne hk]
  simp only [StateObject.written, StateObject.update, StateObject.stored, htx]
  rfl

theorem AsGood.undo_markTX (ho : s.object addr = some o) {kind : TxKind} {txHash : TxHash}
    (hsafe : s.SafeToUndo b log (.markTX kind addr txHash))
    (h : AsGood b (.addTXChange kind addr txHash :: log) t (s.markTX kind addr txHash)) :
    ∃ t', undo (.addTXChange kind addr txHash) t = .ok t' ∧ AsGood b log t' s := by
  have hdel := deleted_of_object ho
  have hrun := markTX_of_object ho kind txHash
  have hdiff : DiffersAt addr [.addTXChange kind addr txHash]
      (o.setPending kind (insert txHash (o.tx kind).dirty)) s (s.markTX kind addr txHash) := by
    rw [hrun]
    exact differsAt_set ..
  have hobj : (s.markTX kind addr txHash).stateObjects addr =
      some (o.setPending kind (insert txHash (o.tx kind).dirty)) := by
    rw [hdiff.stateObjects, Function.update_self]
  have hdirty : (s.markTX kind addr txHash).stateObjectsDirty = s.stateObjectsDirty := by
    rw [hrun]
    rfl
  have haccounts : t.accounts addr = (s.markTX kind addr txHash).accounts addr := by
    rw [h.accounts]
  by_cases hc : .createObjectChange addr ∈ log
  · obtain ⟨x, hx⟩ := Option.isSome_iff_exists.1
      ((h.account addr).created (List.mem_cons_of_mem _ hc)).1
    have hxdel := deleted_of_object hx
    refine ⟨_, undo_addTXChange hx .., h.undo_entry hdiff rfl (undo_addTXChange hx ..) rfl ?_⟩
    exact ⟨fun _ => ⟨Option.isSome_iff_exists.2 ⟨_, object_setStateObject_self hxdel⟩,
      by simp [ho]⟩, fun hn => absurd hc hn⟩
  · obtain ⟨hcached, hnew⟩ := (hsafe o ho).resolve_left hc
    have hback : Back b t (s.markTX kind addr txHash) addr :=
      (h.account addr).old (by simpa using hc)
    obtain ⟨x, hx, hrestored, harmed, -, hsub, hsup⟩ := hback.objects hobj hdel haccounts
    have hxdel := deleted_of_object hx
    refine ⟨_, undo_addTXChange hx .., h.undo_entry hdiff rfl (undo_addTXChange hx ..) rfl ?_⟩
    refine ⟨fun hn => absurd hn hc, fun _ => ?_⟩
    have htx : (x.setPending kind ((x.tx kind).dirty.erase txHash)).tx = o.tx := by
      simp only [StateObject.setPending, hrestored.tx, Function.update_self, Function.update_idem,
        Finset.erase_insert hnew]
      exact Function.update_eq_self kind o.tx
    refine .live (x.setPending kind ((x.tx kind).dirty.erase txHash)) o
      (object_setStateObject_self hxdel) ho ⟨hrestored.data, hrestored.rooted, htx,
        hrestored.suicided, hrestored.storage, hrestored.proxied, hrestored.reward⟩ harmed
      (fun hd => Cached.object hcached ho hd) (fun _ => Function.update_self ..)
      (fun hd => hsub (hdirty ▸ hd)) fun hd => ?_
    rcases hsup hd with hs | ⟨hod, hpanic, hwritten, hpending⟩
    · exact .inl (hdirty ▸ hs)
    -- The hash is in the trie, so that it makes no difference to what is written.
    have hsub : insert txHash (o.tx kind).dirty ⊆ (o.tx kind).trie := by
      simpa [StateObject.setPending] using hpending kind
    have hmem : txHash ∈ (o.tx kind).trie := hsub (Finset.mem_insert_self ..)
    refine .inr ⟨hod, hpanic, ?_, fun k => ?_⟩
    · rw [← StateObject.written_setPending hmem, hwritten, hdiff.accounts]
    · by_cases hk : k = kind
      · rw [hk]
        exact fun y hy => hsub (Finset.mem_insert_of_mem hy)
      · simpa [StateObject.setPending, Function.update_of_ne hk] using hpending k

theorem AsGood.undo_create (ho : s.object addr = none) (hnew : .createObjectChange addr ∉ log)
    (hsafe : s.SafeToUndo b log (.create addr)) (h : AsGood b (.createObjectChange addr :: log) t
      ((s.log (.createObjectChange addr)).putNew addr .new)) :
    ∃ t', undo (.createObjectChange addr) t = .ok t' ∧ AsGood b log t' s := by
  refine ⟨_, rfl, h.undo_entry (differsAt_putNew ..) rfl rfl rfl ?_⟩
  obtain ⟨haccounts, hout⟩ := hsafe
  have hnone : t.accounts addr = none := by
    rw [h.accounts]
    exact haccounts
  refine ⟨fun hn => absurd hn hnew, fun _ => .dead ?_ ho ?_⟩
  · simp [object, hnone]
  · rw [hout, outcome_of_clean (by simp)]
    exact Prod.ext rfl hnone

theorem AsGood.undo_changeSet {name : SetName} {c : SetCall}
    (hsafe : s.SafeToUndo b log (.changeSet name c))
    (h : AsGood b log t ((DbAction.changeSet name c).run s)) : AsGood b log t s := by
  refine ⟨h.accounts, h.reward, h.context, fun n => ?_, fun a => ?_⟩
  · obtain ⟨haddresses, hstored⟩ := h.sets n
    by_cases hn : n = name
    · subst hn
      obtain ⟨hsame, hsame'⟩ := CachedSet.harmless hsafe
      simp only [DbAction.run, Function.update_self] at haddresses hstored
      exact ⟨haddresses.trans hsame, hstored.trans hsame'⟩
    · simp only [DbAction.run, Function.update_of_ne hn] at haddresses hstored
      exact ⟨haddresses, hstored⟩
  · exact (h.account a).congr Iff.rfl ⟨rfl, rfl, Iff.rfl⟩ ⟨rfl, rfl, Iff.rfl⟩

/-! ## Runs -/

/-- An action, with what it journals.  The accounts that were made since the snapshot are there. -/
def UndoStep (b : Bool) (log : List JournalEntry) (s : JournaledDB) (entries : List JournalEntry)
    (s' : JournaledDB) : Prop :=
  ∃ act : DbAction, act.Valid s ∧ s.SafeToUndo b log act ∧
    (∀ a, .createObjectChange a ∈ log → (s.object a).isSome) ∧ s' = act.run s ∧
      s'.journal = entries ++ s.journal

/-- **One action is undone.** -/
theorem UndoStep.undone {entries : List JournalEntry} (h : UndoStep b log s entries s')
    (hR : AsGood b (entries ++ log) t s') :
    ∃ t', UndoLog.undoAll undo entries t = .ok t' ∧ AsGood b log t' s := by
  obtain ⟨act, hv, hsafe, hlive, rfl, hjournal⟩ := h
  have hone : ∀ e : JournalEntry, (act.run s).journal = e :: s.journal → entries = [e] := by
    intro e he
    exact List.append_cancel_right (hjournal.symm.trans he)
  cases act with
  | create addr =>
    obtain rfl := hone _ rfl
    refine AsGood.undo_create hv (fun hn => ?_) hsafe hR
    have hsome := hlive addr hn
    rw [show s.object addr = none from hv] at hsome
    simp at hsome
  | edit addr e =>
    obtain ⟨o, ho⟩ := Option.isSome_iff_exists.1 hv.1
    obtain rfl := hone (.change addr (e.prev o)) (by rw [DbAction.run, edit_of_object ho]; rfl)
    rw [UndoLog.undoAll_singleton]
    exact AsGood.undo_edit ho hsafe hR
  | touch addr =>
    obtain ⟨o, ho⟩ := Option.isSome_iff_exists.1 hv
    obtain rfl := hone (.touchChange addr o.touched !o.onDirty)
      (by rw [DbAction.run, touch_of_object ho]; rfl)
    rw [UndoLog.undoAll_singleton]
    exact AsGood.undo_touch ho hsafe hR
  | markTX kind addr txHash =>
    obtain ⟨o, ho⟩ := Option.isSome_iff_exists.1 hv
    obtain rfl := hone (.addTXChange kind addr txHash)
      (by rw [DbAction.run, markTX_of_object ho]; rfl)
    rw [UndoLog.undoAll_singleton]
    exact AsGood.undo_markTX ho hsafe hR
  | changeSet =>
    obtain rfl : entries = [] := List.append_cancel_right (hjournal.symm.trans (List.nil_append s.journal).symm)
    exact ⟨t, rfl, AsGood.undo_changeSet hsafe hR⟩

/-- What an action journals; an account that it makes is there afterwards. -/
theorem journal_run {act : DbAction} (hv : act.Valid s) :
    ∃ entries, (act.run s).journal = entries ++ s.journal ∧
      (act.run s).revisions = s.revisions ∧
        ∀ a, .createObjectChange a ∈ entries → ((act.run s).object a).isSome := by
  cases act with
  | create addr =>
    refine ⟨[.createObjectChange addr], rfl, rfl, fun a ha => ?_⟩
    obtain rfl : a = addr := by simpa using ha
    exact Option.isSome_iff_exists.2 ⟨_, object_putNew_self rfl⟩
  | edit addr e =>
    obtain ⟨o, ho⟩ := Option.isSome_iff_exists.1 hv.1
    rw [DbAction.run, edit_of_object ho]
    exact ⟨[.change addr (e.prev o)], rfl, rfl, by simp⟩
  | touch addr =>
    obtain ⟨o, ho⟩ := Option.isSome_iff_exists.1 hv
    rw [DbAction.run, touch_of_object ho]
    exact ⟨[.touchChange addr o.touched !o.onDirty], rfl, rfl, by simp⟩
  | markTX kind addr txHash =>
    obtain ⟨o, ho⟩ := Option.isSome_iff_exists.1 hv
    rw [DbAction.run, markTX_of_object ho]
    exact ⟨[.addTXChange kind addr txHash], rfl, rfl, by simp⟩
  | changeSet => exact ⟨[], rfl, rfl, by simp⟩

theorem isSome_run {act : DbAction} (hv : act.Valid s) (h : (s.object a).isSome) :
    ((act.run s).object a).isSome := by
  obtain ⟨_, ho⟩ := Option.isSome_iff_exists.1 h
  rcases DbAction.object_run_cases hv ho with h | ⟨_, -, -, h⟩ | ⟨-, h⟩ | ⟨_, _, -, h⟩ <;>
    simp [h]

end

namespace JournaledDB

/-- The entries since the journal had a certain length. -/
def since (s : JournaledDB) (base : Nat) : List JournalEntry :=
  s.journal.take (s.journal.length - base)

/-- Every action of the calls is safe in the state it is executed in. -/
def SafeCalls (b : Bool) (base : Nat) : JournaledDB → List Call → Prop
  | _, [] => True
  | s, c :: cs => ∀ acts, c.actions s = .ok acts →
    DbAction.AllAt (fun s act => s.SafeToUndo b (s.since base) act) s acts ∧
      SafeCalls b base (DbAction.runAll s acts) cs

/-- Whenever the calls return, going back to the snapshot before them succeeds, every getter returns
what it returned then, and `IntermediateRoot` returns the root that it would have returned. -/
def Restores (b : Bool) (s : JournaledDB) (cs : List Call) : Prop :=
  ∀ s', cs.foldlM (fun s c => c.exec s) s.snapshot = .ok s' →
    ∃ t, s'.revertToSnapshot s.snapshotId = .ok t ∧ t.getters = s.getters ∧
      ∃ root, s.intermediateRoot b = .ok root ∧ t.intermediateRoot b = .ok root

end JournaledDB

/-- A run since a snapshot: its steps, the journal, and the snapshots. -/
structure RunSince (b : Bool) (s₀ : JournaledDB) (log : List JournalEntry) (s : JournaledDB) :
    Prop where
  steps : UndoLog.Steps (UndoStep b) [] s₀ log s
  journal : s.journal = log ++ s₀.journal
  revisions : s.revisions = s₀.revisions
  live : ∀ a, .createObjectChange a ∈ log → (s.object a).isSome

section
variable {b : Bool} {log : List JournalEntry} {s₀ s s' : JournaledDB}

section

variable (h : RunSince b s₀ log s)
include h

theorem RunSince.since : s.since s₀.journal.length = log := by
  rw [JournaledDB.since, h.journal, List.length_append, Nat.add_sub_cancel]
  exact List.take_left ..

theorem RunSince.action {act : DbAction} (hv : act.Valid s)
    (hsafe : s.SafeToUndo b (s.since s₀.journal.length) act) :
    ∃ log', RunSince b s₀ log' (act.run s) := by
  obtain ⟨entries, hentries, hrev, hnew⟩ := journal_run hv
  rw [h.since] at hsafe
  refine ⟨entries ++ log, h.steps.tail ⟨act, hv, hsafe, h.live, rfl, hentries⟩, ?_,
    hrev.trans h.revisions, fun a ha => ?_⟩
  · rw [hentries, h.journal, List.append_assoc]
  · rcases List.mem_append.1 ha with ha | ha
    · exact hnew a ha
    · exact isSome_run hv (h.live a ha)

theorem RunSince.actions {acts : List DbAction} (hv : DbAction.AllAt DbAction.Valid s acts)
    (hsafe : DbAction.AllAt (fun s act => s.SafeToUndo b (s.since s₀.journal.length) act) s acts) :
    ∃ log', RunSince b s₀ log' (DbAction.runAll s acts) := by
  induction acts generalizing s log with
  | nil => exact ⟨log, h⟩
  | cons _ _ ih =>
    obtain ⟨log', h'⟩ := h.action hv.1 hsafe.1
    exact ih h' hv.2 hsafe.2

theorem RunSince.calls {cs : List Call} (hsafe : s.SafeCalls b s₀.journal.length cs)
    (hcs : cs.foldlM (fun s c => c.exec s) s = .ok s') : ∃ log', RunSince b s₀ log' s' := by
  induction cs generalizing s log with
  | nil =>
    cases hcs
    exact ⟨log, h⟩
  | cons c _ ih =>
    rw [List.foldlM_cons, Call.exec_eq_actions] at hcs
    cases ha : c.actions s with
    | error => simp [ha, Except.map, bind, Except.bind] at hcs
    | ok acts =>
      rw [ha] at hcs
      obtain ⟨hacts, hrest⟩ := hsafe acts ha
      obtain ⟨log', h'⟩ := h.actions (Call.actions_valid ha) hacts
      exact ih h' hrest hcs

end

theorem AsGood.refl (hlive : ∀ a, .createObjectChange a ∈ log → (s.object a).isSome) :
    AsGood b log s s :=
  ⟨rfl, rfl, rfl, fun _ => ⟨rfl, rfl⟩, fun a => ⟨fun ha => ⟨hlive a ha, hlive a ha⟩,
    fun _ => .same rfl Iff.rfl⟩⟩

/-- What is as good as a state shows the same. -/
theorem AsGood.getters {t : JournaledDB} (h : AsGood b [] t s) : t.getters = s.getters := by
  have hobjects : ∀ a, (t.object a).map view = (s.object a).map view := fun a =>
    ((h.account a).old (by simp)).view (by rw [h.accounts])
  have hsets : ∀ n, (t.sets n).addresses = (s.sets n).addresses := fun n => (h.sets n).1
  rw [JournaledDB.getters, JournaledDB.getters, funext hobjects, funext hsets, h.reward, h.context]

/-- The root does not depend on the journal and the snapshots. -/
theorem intermediateRoot_journal (journal : List JournalEntry) (revisions : Revisions) :
    ({ s with journal := journal, revisions := revisions } : JournaledDB).intermediateRoot b =
      s.intermediateRoot b :=
  intermediateRoot_congr (fun _ => rfl) rfl fun _ => rfl

theorem AsGood.intermediateRoot {t : JournaledDB} (h : AsGood b [] t s) :
    t.intermediateRoot b = s.intermediateRoot b :=
  intermediateRoot_congr (fun a => ((h.account a).old (by simp)).outcome (by rw [h.accounts]))
    h.reward fun n => (h.sets n).2

/-- Going back to a snapshot undoes what was journaled since. -/
theorem revertToSnapshot_of_undoAll {t : JournaledDB} (hrev : s'.revisions = s.snapshot.revisions)
    (hjournal : s'.journal = log ++ s.journal) (hu : UndoLog.undoAll undo log s' = .ok t) :
    s'.revertToSnapshot s.snapshotId =
      .ok { t with
        journal := s.journal
        revisions := (s.revisions.push s.journal.length).take s.revisions.valid.length } := by
  have hsearch : s'.revisions.search s.snapshotId = s.revisions.valid.length := by
    rw [hrev, Revisions.search]
    change (s.revisions.valid ++ [(s.revisions.nextRevisionId, s.journal.length)]).findIdx _ = _
    rw [List.findIdx_append, List.findIdx_eq_length_of_false]
    · simp [snapshotId]
    · intro r hr
      exact decide_eq_false (not_le.2 (s.revisions.lt_next r hr))
  have hvalid : s'.revisions.valid[s.revisions.valid.length]? =
      some (s.snapshotId, s.journal.length) := by
    rw [hrev]
    change (s.revisions.valid ++ [(s.revisions.nextRevisionId, s.journal.length)])[_]? = _
    rw [List.getElem?_append_right (le_refl _), Nat.sub_self]
    rfl
  have hcount : s'.journal.length - s.journal.length = log.length := by
    rw [hjournal, List.length_append, Nat.add_sub_cancel]
  have htake : s'.journal.take log.length = log := by
    rw [hjournal]
    exact List.take_left ..
  have hdrop : s'.journal.drop log.length = s.journal := by
    rw [hjournal]
    exact List.drop_left ..
  simp only [revertToSnapshot, hsearch, hvalid, ne_eq, not_true_eq_false, if_false, hcount, htake,
    hu, hdrop, bind, Except.bind]
  rw [hrev]
  rfl

end

/-- **`RevertToSnapshot` restores what the calls have changed**, if there is a root to come back to
and every action of the calls is safe in the state it is executed in. -/
theorem revert_restores (b : Bool) (s : JournaledDB) (cs : List Call)
    (hroot : ∃ root, s.intermediateRoot b = .ok root)
    (hsafe : s.snapshot.SafeCalls b s.journal.length cs) : s.Restores b cs := by
  intro s' hcs
  obtain ⟨root, hroot⟩ := hroot
  have hstart : RunSince b s.snapshot [] s.snapshot :=
    ⟨.refl [] _, rfl, rfl, by simp⟩
  obtain ⟨_, hrun⟩ := hstart.calls hsafe hcs
  obtain ⟨_, _, hlog, hu, hgood⟩ :=
    hrun.steps.undone (R := AsGood b) UndoStep.undone (AsGood.refl hrun.live)
  rw [List.append_nil] at hlog
  subst hlog
  refine ⟨_, revertToSnapshot_of_undoAll hrun.revisions hrun.journal hu, hgood.getters, root, hroot,
    ?_⟩
  rw [intermediateRoot_journal, hgood.intermediateRoot, ← hroot]
  exact intermediateRoot_journal s.journal _

/-! ## A candidate that stays -/

namespace CandidateStays

/-- A candidate with a balance, to whom `[2]` has delegated. -/
def candidate : StoredAccount where
  data := { AccountData.new with
    amount := fun field => if field = .balance ∨ field = .proxiedBalance then 3 else 0
    candidate := true }
  storage := fun _ => none
  tx := fun _ => ∅
  proxied := fun user => if user = [2] then some ⟨3, 0, 0⟩ else none
  reward := fun _ => none

/-- The candidate is stored, and so is the set of candidates. -/
def stored : JournaledDB :=
  .new ⟨fun a => if a = [1] then some candidate else none,
    fun name => if name = .candidateSet then some {[1]} else none, none⟩

/-- Writing the account as it is changes nothing. -/
theorem settled_candidate : stored.snapshot.Settled true [1] (.load candidate) :=
  ⟨by decide +kernel, rfl, fun _ => Finset.empty_subset _⟩

/-- A balance and an entry are changed, a cross-chain transaction is marked, an account is made, and
the candidate is marked once more. -/
def calls : List Call :=
  [.add .balance [1] 4, .addByUser .proxied [1] [2] 2, .addTX .tx1 [1] [7], .setNonce [3] 1,
    .changeSet .candidateSet (.mark [1])]

/-- All of this is restored. -/
theorem revert_restores_calls :
    (∃ s', calls.foldlM (fun s c => c.exec s) stored.snapshot = .ok s') ∧ stored.Restores true calls := by
  refine ⟨⟨_, rfl⟩, revert_restores true stored _ ⟨_, rfl⟩ ?_⟩
  intro acts hacts
  cases hacts
  refine ⟨⟨fun o ho => ?_, trivial⟩, ?_⟩
  · cases ho
    exact .inr ⟨fun h => absurd h (by decide +kernel), trivial, fun _ => .inr settled_candidate⟩
  intro acts hacts
  cases hacts
  refine ⟨⟨fun o ho => ?_, fun o ho => ?_, trivial⟩, ?_⟩
  · cases ho
    exact .inr ⟨fun _ => rfl, .inr (by decide +kernel), fun h => by cases h⟩
  · cases ho
    exact .inr ⟨fun _ => rfl, trivial, fun h => by cases h⟩
  intro acts hacts
  cases hacts
  refine ⟨⟨fun o ho => ?_, trivial⟩, ?_⟩
  · cases ho
    exact .inr ⟨fun _ => rfl, by decide +kernel⟩
  intro acts hacts
  cases hacts
  refine ⟨⟨⟨rfl, rfl⟩, fun _ _ => .inl (List.mem_cons_self ..), trivial⟩, ?_⟩
  intro acts hacts
  cases hacts
  exact ⟨⟨⟨by decide +kernel, fun h => by cases h⟩, trivial⟩, trivial⟩

/-- After `MarkAddressCandidate` is reverted, the address is a candidate. -/
theorem revert_forgets_set :
    ¬ (JournaledDB.new .empty).Restores true [.changeSet .candidateSet (.mark [1])] := by
  intro h
  obtain ⟨s', hs', hset⟩ : ∃ s', [Call.changeSet .candidateSet (.mark [1])].foldlM
      (fun s c => c.exec s) (JournaledDB.new .empty).snapshot = .ok s' ∧
        ∀ t, s'.revertToSnapshot (JournaledDB.new .empty).snapshotId = .ok t →
          (t.sets .candidateSet).addresses = {[1]} := by
    refine ⟨_, rfl, fun t ht => ?_⟩
    cases ht
    decide +kernel
  obtain ⟨t, ht, hgetters, -⟩ := h s' hs'
  have hsame : (t.sets .candidateSet).addresses =
      ((JournaledDB.new .empty).sets .candidateSet).addresses :=
    congrFun (congrArg Getters.sets hgetters) .candidateSet
  rw [hset t ht] at hsame
  exact absurd hsame (by decide +kernel)

end CandidateStays

end NeatPoS
