import NeatPoS.Core.Content

/-!
# Which accounts have to be dirty

`Commit` writes the objects that are dirty.  So an account that differs from the trie should be
dirty, now and in every state that `RevertToSnapshot` may lead to.  The difficulty is in going back:
each entry of the journal may be undone at some time, in a state that is not the one it was made in.
Therefore the invariant `GoodAt` is about all states that the journal leads back to.

It is kept by everything that leaves less to be registered (`GoodAt.below`).  That is what makes it
useful: a setter and the undoing of it do not give the old state back, but one that is below it.
-/

set_option autoImplicit false

namespace NeatPoS

open JournaledDB

namespace JournaledDB

/-- What is in memory of an account is what is in the trie. -/
def Synced (s : JournaledDB) (a : Address) : Prop :=
  (s.object a).map StateObject.content = (s.accounts a).map fun st => (StateObject.load st).content

/-- Every account that differs from the trie is dirty. -/
def Registered (s : JournaledDB) : Prop := ∀ a, ¬ s.Synced a → a ∈ s.stateObjectsDirty

end JournaledDB

/-- Undoing the entry takes the account off the dirty ones. -/
def JournalEntry.Unmarks (a : Address) : JournalEntry → Prop
  | touchChange account prev prevDirty =>
    account = a ∧ prev = false ∧ prevDirty = false ∧ account ≠ ripemd
  | _ => False

/-- No touch of the account can be undone. -/
def NoTouch (a : Address) (log : List JournalEntry) : Prop := ∀ e ∈ log, ¬ e.Unmarks a

/-! ## Going back -/

/-- What holds of one account in a state, with the entries that may still be undone. -/
structure InvAt (a : Address) (log : List JournalEntry) (s : JournaledDB) : Prop where
  synced : a ∉ s.stateObjectsDirty → s.Synced a
  /-- An account that is not there, or still has its callback, was not changed. -/
  used : (∃ e ∈ log, e.about = some a) → ∃ o, s.object a = some o ∧ o.onDirty = false

/-- It holds now, and in all states that undoing the entries leads to. -/
def GoodAt (a : Address) : List JournalEntry → JournaledDB → Prop
  | [], s => InvAt a [] s
  | e :: log, s => InvAt a (e :: log) s ∧
    (e.about = some a → ∀ s', undo e s = .ok s' → GoodAt a log s') ∧
      (e.about ≠ some a → GoodAt a log s)

/-- In the second state there is less to be registered: the account has the same content, or it is
dirty and remains so. -/
structure Below (a : Address) (log : List JournalEntry) (s s' : JournaledDB) : Prop where
  accounts : s'.accounts a = s.accounts a
  dirty : a ∈ s.stateObjectsDirty → a ∈ s'.stateObjectsDirty
  armed : ∀ o', s'.object a = some o' → o'.onDirty = true →
    ∃ o, s.object a = some o ∧ o.onDirty = true
  memory : (s'.object a).map StateObject.memory = (s.object a).map StateObject.memory ∨
    a ∈ s'.stateObjectsDirty ∧ (s'.object a).isSome ∧ (s.object a).isSome ∧ NoTouch a log

section
variable {a : Address} {log : List JournalEntry} {s s' t t' : JournaledDB} {e : JournalEntry}
  {o o' : StateObject}

theorem GoodAt.inv (h : GoodAt a log s) : InvAt a log s := by
  cases log with
  | nil => exact h
  | cons => exact h.1

theorem NoTouch.tail (h : NoTouch a (e :: log)) : NoTouch a log :=
  fun e' he' => h e' (List.mem_cons_of_mem e he')

theorem Below.tail (h : Below a (e :: log) s s') : Below a log s s' := by
  refine ⟨h.accounts, h.dirty, h.armed, ?_⟩
  rcases h.memory with hm | ⟨hd, hlive', hlive, hno⟩
  · exact .inl hm
  · exact .inr ⟨hd, hlive', hlive, hno.tail⟩

theorem Below.of_objects (ho : s.object a = some o) (ho' : s'.object a = some o')
    (haccounts : s'.accounts a = s.accounts a)
    (hdirty : a ∈ s.stateObjectsDirty → a ∈ s'.stateObjectsDirty) (harmed : o'.onDirty = false)
    (hmemory : o'.memory = o.memory ∨ a ∈ s'.stateObjectsDirty ∧ NoTouch a log) :
    Below a log s s' := by
  refine ⟨haccounts, hdirty, fun p hp hpd => ?_, ?_⟩
  · obtain rfl := Option.some.inj (ho'.symm.trans hp)
    exact absurd hpd (by simp [harmed])
  · rcases hmemory with hm | ⟨hd, hno⟩
    · left
      rw [ho, ho', Option.map_some, Option.map_some, hm]
    · exact .inr ⟨hd, by simp [ho'], by simp [ho], hno⟩

/-- A setter that does not use a callback. -/
theorem Below.mark (hdel : o.deleted = false) (hdel' : o'.deleted = false)
    (hod : o.onDirty = false) (hod' : o'.onDirty = false) (haccounts : s'.accounts a = s.accounts a)
    (hdirty : a ∈ s.stateObjectsDirty → a ∈ s'.stateObjectsDirty)
    (hmemory : o'.memory = o.memory ∨ a ∈ s'.stateObjectsDirty ∧ NoTouch a log) :
    Below a log (s.mark a o) (s'.mark a o') := by
  refine .of_objects (object_mark_self hdel) (object_mark_self hdel') haccounts ?_ rfl ?_
  · rw [stateObjectsDirty_mark_of_used hod, stateObjectsDirty_mark_of_used hod']
    exact hdirty
  · rw [stateObjectsDirty_mark_of_used hod']
    exact hmemory

/-- Nothing has changed about the account. -/
theorem Below.of_eq (hobjects : s'.stateObjects a = s.stateObjects a)
    (haccounts : s'.accounts a = s.accounts a)
    (hdirty : a ∈ s.stateObjectsDirty → a ∈ s'.stateObjectsDirty) : Below a log s s' := by
  have ho : s'.object a = s.object a := object_congr hobjects haccounts
  exact ⟨haccounts, hdirty, fun o' ho' hd => ⟨o', ho ▸ ho', hd⟩, .inl (by rw [ho])⟩

theorem synced_of_memory (haccounts : s'.accounts a = s.accounts a)
    (hm : (s'.object a).map StateObject.memory = (s.object a).map StateObject.memory)
    (h : s.Synced a) : s'.Synced a := by
  have hcontent : ∀ r : JournaledDB, (r.object a).map StateObject.content =
      ((r.object a).map StateObject.memory).map StateObject.Memory.content := fun r => by
    rw [Option.map_map]
    rfl
  rw [Synced, hcontent, hm, ← hcontent, haccounts]
  exact h

theorem InvAt.below (h : InvAt a log s) (hb : Below a log s s') : InvAt a log s' := by
  refine ⟨fun hd => ?_, fun he => ?_⟩
  · rcases hb.memory with hm | ⟨hd', -⟩
    · exact synced_of_memory hb.accounts hm (h.synced fun hs => hd (hb.dirty hs))
    · exact absurd hd' hd
  · obtain ⟨_, ho, hod⟩ := h.used he
    have hlive : ∃ o', s'.object a = some o' := by
      rcases hb.memory with hm | ⟨-, hlive, -⟩
      · rw [ho] at hm
        obtain ⟨o', ho', -⟩ := Option.map_eq_some_iff.1 hm
        exact ⟨o', ho'⟩
      · exact Option.isSome_iff_exists.1 hlive
    obtain ⟨o', ho'⟩ := hlive
    refine ⟨o', ho', ?_⟩
    by_contra hod'
    obtain ⟨_, hp, hpd⟩ := hb.armed o' ho' (by simpa using hod')
    obtain rfl := Option.some.inj (ho.symm.trans hp)
    exact absurd hpd (by simp [hod])

/-- Undoing one entry of the account, in two states of which the second is below the first. -/
theorem Below.undo (hb : Below a (e :: log) s s') (he : e.about = some a)
    (ho : s.object a = some o) (ho' : s'.object a = some o') (hod : o.onDirty = false)
    (hod' : o'.onDirty = false) (hu : JournaledDB.undo e s' = .ok t') :
    ∃ t, JournaledDB.undo e s = .ok t ∧ Below a log t t' := by
  have hmem : ∀ {p p' : StateObject}, (o'.memory = o.memory → p'.memory = p.memory) →
      p'.memory = p.memory ∨ a ∈ s'.stateObjectsDirty ∧ NoTouch a log := by
    intro p p' hp
    rcases hb.memory with hm | ⟨hd, -, -, hno⟩
    · rw [ho, ho', Option.map_some, Option.map_some, Option.some.injEq] at hm
      exact .inl (hp hm)
    · exact .inr ⟨hd, hno.tail⟩
  have hdel := deleted_of_object ho
  have hdel' := deleted_of_object ho'
  cases e with
  | createObjectChange =>
    obtain rfl := Option.some.inj he
    obtain rfl := Except.ok.inj hu
    exact ⟨_, rfl, .of_eq (by simp) hb.accounts (by simp)⟩
  | resetObjectChange =>
    obtain rfl := Option.some.inj he
    obtain rfl := Except.ok.inj hu
    exact ⟨_, rfl, .of_eq (by simp [setStateObject]) hb.accounts hb.dirty⟩
  | suicideChange _ prev prevbalance =>
    obtain rfl := Option.some.inj he
    rw [undo_suicideChange ho', Except.ok.injEq] at hu
    subst hu
    refine ⟨_, undo_suicideChange ho prev prevbalance, ?_⟩
    exact .mark hdel hdel' hod hod' hb.accounts hb.dirty
      (hmem fun hm => StateObject.memory_apply_congr hm (.amount .balance prevbalance))
  | touchChange addr prev prevDirty =>
    obtain rfl := Option.some.inj he
    by_cases hundo : (!prev && addr != ripemd) = true
    · rw [undo_touchChange ho' hundo, Except.ok.injEq] at hu
      subst hu
      refine ⟨_, undo_touchChange ho hundo prevDirty, ?_⟩
      refine .of_objects (object_setStateObject_self (o := { o with touched := prev }) hdel)
        (object_setStateObject_self (o := { o' with touched := prev }) hdel') hb.accounts ?_ hod' ?_
      · cases prevDirty with
        | true => exact hb.dirty
        | false => simp
      · rcases hb.memory with hm | ⟨hd, -, -, hno⟩
        · rw [ho, ho', Option.map_some, Option.map_some, Option.some.injEq] at hm
          exact .inl hm
        -- A touch that takes the mark away is excluded, so it is kept.
        cases prevDirty with
        | true => exact .inr ⟨hd, hno.tail⟩
        | false =>
          simp only [Bool.and_eq_true, Bool.not_eq_true', bne_iff_ne] at hundo
          exact absurd ⟨rfl, hundo.1, rfl, hundo.2⟩ (hno _ (List.mem_cons_self ..))
    · rw [Bool.not_eq_true] at hundo
      rw [undo_touchChange_skip hundo, Except.ok.injEq] at hu
      subst hu
      exact ⟨s, undo_touchChange_skip hundo prevDirty s, hb.tail⟩
  | addTXChange kind _ txHash =>
    obtain rfl := Option.some.inj he
    rw [undo_addTXChange ho', Except.ok.injEq] at hu
    subst hu
    refine ⟨_, undo_addTXChange ho kind txHash, ?_⟩
    exact .of_objects (object_setStateObject_self hdel) (object_setStateObject_self hdel')
      hb.accounts hb.dirty hod'
      (hmem fun hm => StateObject.memory_setPending_congr hm kind fun p => p.erase txHash)
  | change _ prev =>
    obtain rfl := Option.some.inj he
    rw [undo_change ho', Except.ok.injEq] at hu
    subst hu
    refine ⟨_, undo_change ho prev, ?_⟩
    exact .mark (by simp [hdel]) (by simp [hdel']) (by simp [hod]) (by simp [hod']) hb.accounts
      hb.dirty (hmem fun hm => StateObject.memory_apply_congr hm prev)
  | refundChange | addLogChange | addPreimageChange => simp [JournalEntry.about] at he

/-- **What is good stays good below.** -/
theorem GoodAt.below (h : GoodAt a log s) (hb : Below a log s s') : GoodAt a log s' := by
  induction log generalizing s s' with
  | nil => exact InvAt.below h hb
  | cons e log ih =>
    obtain ⟨hinv, habout, hother⟩ := h
    have hinv' := hinv.below hb
    refine ⟨hinv', fun he t' ht' => ?_, fun he => ih (hother he) hb.tail⟩
    have hentry : ∃ e' ∈ e :: log, e'.about = some a := ⟨e, List.mem_cons_self .., he⟩
    obtain ⟨_, ho, hod⟩ := hinv.used hentry
    obtain ⟨_, ho', hod'⟩ := hinv'.used hentry
    obtain ⟨t, ht, hbelow⟩ := hb.undo he ho ho' hod hod' ht'
    exact ih (habout he t ht) hbelow

/-- Without entries about the account there is nothing to undo. -/
theorem GoodAt.of_no_entries (hlog : ∀ e ∈ log, e.about ≠ some a)
    (h : a ∉ s.stateObjectsDirty → s.Synced a) : GoodAt a log s := by
  induction log with
  | nil => exact ⟨h, by simp⟩
  | cons e _ ih =>
    have he := hlog e (List.mem_cons_self ..)
    refine ⟨⟨h, fun ⟨e', he', ha⟩ => absurd ha (hlog e' he')⟩, fun ha => absurd ha he, fun _ => ?_⟩
    exact ih fun e' he' => hlog e' (List.mem_cons_of_mem e he')

/-- An entry about another account. -/
theorem GoodAt.cons_of_ne (h : GoodAt a log s) (he : e.about ≠ some a) : GoodAt a (e :: log) s := by
  refine ⟨⟨h.inv.synced, ?_⟩, fun ha => absurd ha he, fun _ => h⟩
  rintro ⟨e', he', ha⟩
  rcases List.mem_cons.1 he' with rfl | he'
  · exact absurd ha he
  · exact h.inv.used ⟨e', he', ha⟩

/-- An account that has just been changed, and is dirty. -/
theorem GoodAt.cons_of_dirty (he : e.about = some a) (ho : s.object a = some o)
    (hod : o.onDirty = false) (hd : a ∈ s.stateObjectsDirty)
    (hu : ∀ t, undo e s = .ok t → GoodAt a log t) : GoodAt a (e :: log) s :=
  ⟨⟨fun hn => absurd hd hn, fun _ => ⟨o, ho, hod⟩⟩, fun _ => hu, fun hne => absurd he hne⟩

theorem undo_of_ne (he : e.about ≠ some a) (hu : undo e s = .ok t) :
    t.stateObjects a = s.stateObjects a ∧ t.accounts a = s.accounts a ∧
      (a ∈ t.stateObjectsDirty ↔ a ∈ s.stateObjectsDirty) := by
  rcases undo_cases hu with ⟨_, rfl, -⟩ | ⟨addr, _, _, habout, -, hdirty, rfl⟩
  · exact ⟨rfl, rfl, Iff.rfl⟩
  · have hne : a ≠ addr := by
      rintro rfl
      exact he habout
    exact ⟨Function.update_of_ne hne .., rfl, hdirty a hne⟩

/-- Undoing the newest entries of a journal leaves it good. -/
theorem GoodAt.undoAll {newer : List JournalEntry} (h : GoodAt a (newer ++ log) s)
    (hu : UndoLog.undoAll undo newer s = .ok t) : GoodAt a log t := by
  induction newer generalizing s with
  | nil =>
    cases hu
    exact h
  | cons e _ ih =>
    rw [UndoLog.undoAll] at hu
    cases he : undo e s with
    | error => simp [he, bind, Except.bind] at hu
    | ok s₁ =>
      rw [he] at hu
      obtain ⟨-, habout, hother⟩ := h
      by_cases ha : e.about = some a
      · exact ih (habout ha s₁ he) hu
      · obtain ⟨hobjects, haccounts, hdirty⟩ := undo_of_ne ha he
        exact ih ((hother ha).below (.of_eq hobjects haccounts hdirty.2)) hu

end

/-! ## Changes of one account -/

section
variable {a addr : Address} {s s' t : JournaledDB} {e : JournalEntry} {o : StateObject}

/-- Two states that differ in the object of one account, and in whether it is dirty. -/
structure DiffersAt (addr : Address) (entries : List JournalEntry) (o : StateObject)
    (s s' : JournaledDB) : Prop where
  accounts : s'.accounts = s.accounts
  stateObjects : s'.stateObjects = Function.update s.stateObjects addr (some o)
  dirty : ∀ a, a ≠ addr → (a ∈ s'.stateObjectsDirty ↔ a ∈ s.stateObjectsDirty)
  sets : s'.sets = s.sets
  reward : s'.sideChainRewardPerBlock = s.sideChainRewardPerBlock
  context : s'.context = s.context
  journal : s'.journal = entries ++ s.journal

theorem differsAt_mark (s : JournaledDB) (addr : Address) (e : JournalEntry) (o : StateObject) :
    DiffersAt addr [e] { o with onDirty := false } s ((s.log e).mark addr o) := by
  refine ⟨rfl, rfl, fun a ha => ?_, rfl, rfl, rfl, rfl⟩
  rw [JournaledDB.mark]
  split
  · simp [JournaledDB.log, ha]
  · exact Iff.rfl

theorem differsAt_putNew (s : JournaledDB) (addr : Address) (e : JournalEntry) (o : StateObject) :
    DiffersAt addr [e] o s ((s.log e).putNew addr o) :=
  ⟨rfl, rfl, fun a ha => by simp [putNew, JournaledDB.log, ha], rfl, rfl, rfl, rfl⟩

theorem differsAt_set (s : JournaledDB) (addr : Address) (e : JournalEntry) (o : StateObject) :
    DiffersAt addr [e] o s ((s.log e).setStateObject addr o) :=
  ⟨rfl, rfl, fun _ _ => Iff.rfl, rfl, rfl, rfl, rfl⟩

/-- The other accounts. -/
theorem DiffersAt.of_ne {entries : List JournalEntry} (h : DiffersAt addr entries o s s')
    (ha : a ≠ addr) : s'.stateObjects a = s.stateObjects a ∧ s'.accounts a = s.accounts a ∧
      (a ∈ s'.stateObjectsDirty ↔ a ∈ s.stateObjectsDirty) := by
  refine ⟨?_, by rw [h.accounts], h.dirty a ha⟩
  rw [h.stateObjects, Function.update_of_ne ha]

theorem DiffersAt.goodAt {entries : List JournalEntry} (h : DiffersAt addr entries o s s')
    (ha : a ≠ addr) {log : List JournalEntry} (hg : GoodAt a log s) : GoodAt a log s' := by
  obtain ⟨hobjects, haccounts, hdirty⟩ := h.of_ne ha
  exact hg.below (.of_eq hobjects haccounts hdirty.2)

/-- What undoing never changes. -/
theorem undo_frame (hu : undo e s = .ok t) :
    t.accounts = s.accounts ∧ t.sets = s.sets ∧
      t.sideChainRewardPerBlock = s.sideChainRewardPerBlock := by
  rcases undo_cases hu with ⟨_, rfl, -⟩ | ⟨_, _, _, -, -, -, rfl⟩
  · exact ⟨rfl, rfl, rfl⟩
  · exact ⟨rfl, rfl, rfl⟩

end

end NeatPoS
