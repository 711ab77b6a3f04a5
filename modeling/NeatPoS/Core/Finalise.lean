import NeatPoS.Core.Actions

/-!
# What `Finalise` and `Commit` leave

One lemma for each part of the state that the two change, and one for when they panic.  What follows
about them uses these lemmas and does not open the definitions again.
-/

set_option autoImplicit false

namespace NeatPoS

namespace JournaledDB

variable {s s' : JournaledDB} {a : Address} {o : StateObject} {b : Bool}

theorem object_eq_some : s.object a = some o ↔
    s.stateObjects a = some o ∧ o.deleted = false ∨
      s.stateObjects a = none ∧ ∃ st, s.accounts a = some st ∧ o = .load st := by
  rw [object]
  cases h : s.stateObjects a with
  | none =>
    simp only [Option.map_eq_some_iff, reduceCtorEq, false_and, true_and, false_or]
    exact exists_congr fun st => and_congr_right fun _ => eq_comm
  | some o' =>
    by_cases hd : o'.deleted = true
    · simp only [hd, if_true, reduceCtorEq, Option.some.injEq, false_and, or_false, false_iff,
        not_and, Bool.not_eq_false]
      rintro rfl
      exact hd
    · simp only [hd, Bool.false_eq_true, if_false, Option.some.injEq, reduceCtorEq, false_and,
        or_false]
      constructor
      · rintro rfl
        exact ⟨rfl, by simpa using hd⟩
      · exact And.left

theorem object_congr {t : JournaledDB} (h₁ : t.stateObjects a = s.stateObjects a)
    (h₂ : t.accounts a = s.accounts a) : t.object a = s.object a := by
  rw [object, object, h₁, h₂]

/-! ## Panics -/

theorem flushPanic_of_finalise (h : s.finalise b = .ok s') : s.flushPanic b = none := by
  rw [finalise] at h
  cases hp : s.flushPanic b with
  | none => rfl
  | some => simp [hp] at h

theorem commitPanic_of_commit (h : s.commit b = .ok s') : s.commitPanic b = none := by
  rw [commit] at h
  cases hp : s.commitPanic b with
  | none => rfl
  | some => simp [hp] at h

/-- No dirty object panics. -/
theorem flushPanic_eq_none :
    s.flushPanic b = none ↔
      (∀ a ∈ s.stateObjectsDirty, ∃ o, s.stateObjects a = some o ∧ o.flushPanic b = none) ∧
        s.sideChainRewardPerBlock.unencodable = false := by
  have hcell : ∀ a, (∃ o, s.stateObjects a = some o ∧ o.flushPanic b = none) ↔
      (s.stateObjects a).elim (some Panic.nilDereference) (StateObject.flushPanic b) = none := by
    intro a
    cases s.stateObjects a <;> simp
  simp only [flushPanic, hcell]
  split
  · rename_i h
    obtain ⟨a, ha, hp⟩ := h
    simp only [reduceCtorEq, false_iff, not_and]
    intro hall
    rw [hall a ha] at hp
    simp at hp
  · split
    · rename_i h
      obtain ⟨a, ha, hp⟩ := h
      simp only [reduceCtorEq, false_iff, not_and]
      intro hall
      rw [hall a ha] at hp
      simp at hp
    · rename_i h
      constructor
      · intro hr
        refine ⟨fun a ha => ?_, ?_⟩
        · by_contra hne
          exact h ⟨a, ha, Option.isSome_iff_ne_none.2 hne⟩
        · by_contra hu
          simp [hu] at hr
      · rintro ⟨-, hu⟩
        simp [hu]

/-- `Commit` panics at the objects that `Finalise` panics at, if at all. -/
theorem commitPanic_of_flushPanic (h : s.flushPanic b = none) : s.commitPanic b = none := by
  rw [flushPanic_eq_none] at h
  rw [commitPanic, flushPanic_eq_none]
  exact ⟨fun a ha => h.1 a (Finset.mem_filter.1 ha).1, h.2⟩

/-! ## The states -/

section
variable (h : s.finalise b = .ok s')
include h

theorem eq_of_finalise :
    s' = clearJournalAndRefund
      { s with
        accounts := fun a => if a ∈ s.stateObjectsDirty then
          (s.stateObjects a).bind (StateObject.written b) else s.accounts a
        stateObjects := fun a => if a ∈ s.stateObjectsDirty then
          (s.stateObjects a).map (StateObject.finalised b) else s.stateObjects a
        sets := fun n => (s.sets n).write
        sideChainRewardPerBlock := s.sideChainRewardPerBlock.write } := by
  rw [finalise, flushPanic_of_finalise h] at h
  exact (Except.ok.inj h).symm

theorem stateObjects_finalise_of_dirty (ha : a ∈ s.stateObjectsDirty) :
    s'.stateObjects a = (s.stateObjects a).map (StateObject.finalised b) := by
  rw [eq_of_finalise h]
  exact if_pos ha

theorem stateObjects_finalise_of_clean (ha : a ∉ s.stateObjectsDirty) :
    s'.stateObjects a = s.stateObjects a := by
  rw [eq_of_finalise h]
  exact if_neg ha

theorem accounts_finalise_of_clean (ha : a ∉ s.stateObjectsDirty) :
    s'.accounts a = s.accounts a := by
  rw [eq_of_finalise h]
  exact if_neg ha

theorem stateObjectsDirty_finalise : s'.stateObjectsDirty = s.stateObjectsDirty := by
  rw [eq_of_finalise h]
  rfl

theorem journal_finalise : s'.journal = [] := by
  rw [eq_of_finalise h]
  rfl

theorem valid_finalise : s'.revisions.valid = [] := by
  rw [eq_of_finalise h]
  rfl

end

section
variable (h : s.commit b = .ok s')
include h

theorem eq_of_commit :
    s' = clearJournalAndRefund
      { s with
        accounts := fun a =>
          match s.stateObjects a with
          | none => s.accounts a
          | some o => if a ∈ s.stateObjectsDirty then o.written b
            else if o.suicided then none else s.accounts a
        stateObjects := fun a => (s.stateObjects a).map (s.committed b a)
        stateObjectsDirty := s.stateObjectsDirty.filter fun a => (s.stateObjects a).isNone
        sets := fun n => (s.sets n).commit
        sideChainRewardPerBlock := s.sideChainRewardPerBlock.commit } := by
  rw [commit, commitPanic_of_commit h] at h
  exact (Except.ok.inj h).symm

theorem stateObjects_commit : s'.stateObjects a = (s.stateObjects a).map (s.committed b a) := by
  rw [eq_of_commit h]
  rfl

theorem accounts_commit_of_none (ha : s.stateObjects a = none) : s'.accounts a = s.accounts a := by
  rw [eq_of_commit h]
  simp [clearJournalAndRefund, ha]

theorem accounts_commit_of_dirty (ha : s.stateObjects a = some o)
    (hd : a ∈ s.stateObjectsDirty) : s'.accounts a = o.written b := by
  rw [eq_of_commit h]
  simp [clearJournalAndRefund, ha, hd]

theorem accounts_commit_of_suicided (ha : s.stateObjects a = some o)
    (hs : o.suicided = true) : s'.accounts a = none := by
  rw [eq_of_commit h]
  by_cases hd : a ∈ s.stateObjectsDirty
  · simp [clearJournalAndRefund, ha, hd, StateObject.written, StateObject.clears, hs]
  · simp [clearJournalAndRefund, ha, hd, hs]

theorem accounts_commit_of_clean (ha : s.stateObjects a = some o)
    (hd : a ∉ s.stateObjectsDirty) (hs : o.suicided = false) : s'.accounts a = s.accounts a := by
  rw [eq_of_commit h]
  simp [clearJournalAndRefund, ha, hd, hs]

theorem mem_stateObjectsDirty_commit :
    a ∈ s'.stateObjectsDirty ↔ a ∈ s.stateObjectsDirty ∧ s.stateObjects a = none := by
  rw [eq_of_commit h]
  simp [clearJournalAndRefund]

theorem journal_commit : s'.journal = [] := by
  rw [eq_of_commit h]
  rfl

theorem valid_commit : s'.revisions.valid = [] := by
  rw [eq_of_commit h]
  rfl

end

/-! ## The root -/

/-- What becomes of one account in `Finalise`: the panic, or what is then in the trie. -/
def outcome (b : Bool) (s : JournaledDB) (a : Address) : Option Panic × Option StoredAccount :=
  if a ∈ s.stateObjectsDirty then
    (s.stateObjects a).elim (some .nilDereference, none) fun o => (o.flushPanic b, o.written b)
  else (none, s.accounts a)

theorem outcome_of_dirty (h : s.stateObjects a = some o) (ha : a ∈ s.stateObjectsDirty) :
    s.outcome b a = (o.flushPanic b, o.written b) := by
  rw [outcome, if_pos ha, h]
  rfl

theorem outcome_of_clean (ha : a ∉ s.stateObjectsDirty) : s.outcome b a = (none, s.accounts a) :=
  if_neg ha

theorem exists_panic_iff (P : Option Panic → Prop) (hP : ¬ P none) :
    (∃ a ∈ s.stateObjectsDirty, P ((s.stateObjects a).elim (some .nilDereference)
      (StateObject.flushPanic b))) ↔ ∃ a, P (s.outcome b a).1 := by
  have hcell : ∀ a ∈ s.stateObjectsDirty, (s.outcome b a).1 =
      (s.stateObjects a).elim (some .nilDereference) (StateObject.flushPanic b) := by
    intro a ha
    rw [outcome, if_pos ha]
    cases s.stateObjects a <;> rfl
  constructor
  · rintro ⟨a, ha, hp⟩
    exact ⟨a, by rwa [hcell a ha]⟩
  rintro ⟨a, hp⟩
  by_cases ha : a ∈ s.stateObjectsDirty
  · exact ⟨a, ha, by rwa [← hcell a ha]⟩
  · rw [outcome_of_clean ha] at hp
    exact absurd hp hP

section
variable {t : JournaledDB} (hout : ∀ a, t.outcome b a = s.outcome b a)
  (hreward : t.sideChainRewardPerBlock = s.sideChainRewardPerBlock)
include hout hreward

theorem flushPanic_congr : t.flushPanic b = s.flushPanic b := by
  refine if_congr ?_ rfl (if_congr ?_ rfl (by rw [hreward]))
  · rw [exists_panic_iff (fun p => p = some .nilDereference) (by simp),
      exists_panic_iff (fun p => p = some .nilDereference) (by simp)]
    simp only [hout]
  · rw [exists_panic_iff (fun p => p.isSome = true) (by simp),
      exists_panic_iff (fun p => p.isSome = true) (by simp)]
    simp only [hout]

/-- **The root is decided account by account.** -/
theorem intermediateRoot_congr
    (hsets : ∀ n, (t.sets n).write.stored = (s.sets n).write.stored) :
    t.intermediateRoot b = s.intermediateRoot b := by
  have haccounts : ∀ r : JournaledDB, ∀ a, (if a ∈ r.stateObjectsDirty then
      (r.stateObjects a).bind (StateObject.written b) else r.accounts a) = (r.outcome b a).2 := by
    intro r a
    rw [outcome]
    split
    · cases r.stateObjects a <;> rfl
    · rfl
  rw [intermediateRoot, intermediateRoot, finalise, finalise, flushPanic_congr hout hreward]
  cases s.flushPanic b with
  | some => rfl
  | none =>
    simp only [Except.map, trie, clearJournalAndRefund, haccounts, hout, hsets, hreward]

end

/-! ## Which accounts are deleted -/

/-- Of the live accounts `Finalise` deletes the dirty ones that `clears` is true of. -/
theorem object_finalise_eq_none (h : s.finalise b = .ok s') (ho : s.object a = some o) :
    s'.object a = none ↔
      a ∈ s.stateObjectsDirty ∧ s.stateObjects a = some o ∧ o.clears b = true := by
  by_cases ha : a ∈ s.stateObjectsDirty
  · obtain ⟨_, ho', -⟩ := (flushPanic_eq_none.1 (flushPanic_of_finalise h)).1 a ha
    rcases object_eq_some.1 ho with ⟨hcached, hd⟩ | ⟨hnone, -⟩
    · rw [object, stateObjects_finalise_of_dirty h ha, hcached]
      by_cases hc : o.clears b = true
      · simp [StateObject.finalised, hc, ha]
      · simp [StateObject.finalised, hc, StateObject.update, hd]
    · rw [hnone] at ho'
      simp at ho'
  · rw [object_congr (stateObjects_finalise_of_clean h ha) (accounts_finalise_of_clean h ha), ho]
    simp [ha]

/-- `Commit` deletes the same accounts, and the suicided ones that are not dirty. -/
theorem object_commit_eq_none (h : s.commit b = .ok s') (ho : s.object a = some o)
    (hs : o.suicided = false) :
    s'.object a = none ↔
      a ∈ s.stateObjectsDirty ∧ s.stateObjects a = some o ∧ o.clears b = true := by
  rcases object_eq_some.1 ho with ⟨hcached, hd⟩ | ⟨hnone, _, hst, -⟩
  · rw [object, stateObjects_commit h, hcached, Option.map_some, committed]
    by_cases ha : a ∈ s.stateObjectsDirty
    · by_cases hc : o.clears b = true
      · simp [ha, StateObject.finalised, hc]
      · simp [ha, StateObject.finalised, hc, StateObject.update, hd]
    · simp [ha, hs, hd]
  · rw [object, stateObjects_commit h, hnone, Option.map_none, accounts_commit_of_none h hnone, hst]
    simp

end JournaledDB

end NeatPoS
