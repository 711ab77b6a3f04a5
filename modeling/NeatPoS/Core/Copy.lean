import NeatPoS.Core.Finalise

/-!
# When a copy is faithful

`Copy` copies the dirty objects, the sets of addresses, the logs and the trie.  What it leaves out
has to be in the trie already, and for three things this is not so.

* An entry of the proxied or the reward trie that is not there is a nil pointer, and reading it
  leaves the pointer in a cache of the object.  `deepCopy` dereferences what is in the caches.
* An object that is not dirty is not copied.  `AddTX1` and `AddTX3` change an object without making
  it dirty, and so does every setter once the callback is gone.
* The hash of the block and the index of the transaction are not copied.

`copy_faithful_iff` says that there is nothing else.
-/

set_option autoImplicit false

namespace NeatPoS

namespace JournaledDB

/-- `Copy` returns, the copy answers every getter as the original does, and the two have the same
root. -/
def CopyFaithful (s : JournaledDB) : Prop :=
  ∃ c, s.copy = .ok c ∧ c.getters = s.getters ∧
    ∀ deleteEmptyObjects,
      c.intermediateRoot deleteEmptyObjects = s.intermediateRoot deleteEmptyObjects

/-- What a database opened at the trie would show of an account. -/
def storedView (s : JournaledDB) (a : Address) : Option View :=
  (s.accounts a).map fun st => view (.load st)

variable {s c : JournaledDB} {a : Address} {b : Bool}

theorem copy_eq_ok : s.copy = .ok c ↔
    (∀ a ∈ s.stateObjectsDirty, ∃ o, s.stateObjects a = some o ∧ o.copies = true) ∧
      c = { s with
        stateObjects := fun a =>
          if a ∈ s.stateObjectsDirty then (s.stateObjects a).map StateObject.deepCopy else none
        context := { s.context with thash := zeroHash, bhash := zeroHash, txIndex := 0 }
        journal := []
        revisions := .none 0 } := by
  have hcell : ∀ a, (∃ o, s.stateObjects a = some o ∧ o.copies = true) ↔
      ¬ (s.stateObjects a).elim false StateObject.copies = false := by
    intro a
    cases s.stateObjects a <;> simp
  rw [copy]
  simp only [hcell]
  split
  · rename_i h
    obtain ⟨a, ha, hne⟩ := h
    simp only [reduceCtorEq, false_iff, not_and]
    intro hall
    exact absurd hne (hall a ha)
  · rename_i h
    have hall : ∀ a ∈ s.stateObjectsDirty,
        ¬ (s.stateObjects a).elim false StateObject.copies = false :=
      fun a ha hne => h ⟨a, ha, hne⟩
    rw [Except.ok.injEq, eq_comm]
    exact ⟨fun hc => ⟨hall, hc⟩, And.right⟩

theorem object_copy_of_dirty (h : s.copy = .ok c) (ha : a ∈ s.stateObjectsDirty) :
    (c.object a).map view = (s.object a).map view := by
  obtain ⟨hdirty, rfl⟩ := copy_eq_ok.1 h
  obtain ⟨o, ho, -⟩ := hdirty a ha
  simp only [object, if_pos ha, ho, Option.map_some]
  by_cases hd : o.deleted = true
  · simp [StateObject.deepCopy, hd]
  · simp [StateObject.deepCopy, hd, view]
    rfl

theorem object_copy_of_clean (h : s.copy = .ok c) (ha : a ∉ s.stateObjectsDirty) :
    (c.object a).map view = s.storedView a := by
  obtain ⟨-, rfl⟩ := copy_eq_ok.1 h
  simp only [object, if_neg ha, storedView, Option.map_map, Function.comp_def]

/-- The root depends on nothing that is not copied. -/
theorem intermediateRoot_copy (h : s.copy = .ok c) :
    c.intermediateRoot b = s.intermediateRoot b := by
  obtain ⟨hdirty, heq⟩ := copy_eq_ok.1 h
  have hobjects : ∀ a ∈ s.stateObjectsDirty,
      c.stateObjects a = (s.stateObjects a).map StateObject.deepCopy := by
    intro a ha
    rw [heq]
    exact if_pos ha
  have hsame : c.stateObjectsDirty = s.stateObjectsDirty := by rw [heq]
  refine intermediateRoot_congr (fun a => ?_) (by rw [heq]) fun n => by rw [heq]
  by_cases ha : a ∈ s.stateObjectsDirty
  · obtain ⟨o, ho, -⟩ := hdirty a ha
    rw [outcome_of_dirty ho ha, outcome_of_dirty (by rw [hobjects a ha, ho]; rfl) (hsame ▸ ha)]
    rfl
  · rw [outcome_of_clean ha, outcome_of_clean (hsame ▸ ha), heq]

/-- **When a copy is faithful.**  No dirty object has a nil pointer in its caches, the objects that
are not dirty show what is in the trie, and there is no block and no index to be copied. -/
theorem copy_faithful_iff (s : JournaledDB) :
    s.CopyFaithful ↔
      (∀ a ∈ s.stateObjectsDirty, ∃ o, s.stateObjects a = some o ∧ o.copies = true) ∧
        (∀ a, a ∉ s.stateObjectsDirty → (s.object a).map view = s.storedView a) ∧
          s.context.bhash = zeroHash ∧ s.context.txIndex = 0 := by
  constructor
  · rintro ⟨c, hc, hgetters, -⟩
    obtain ⟨hdirty, heq⟩ := copy_eq_ok.1 hc
    have hobjects : ∀ a, (c.object a).map view = (s.object a).map view := fun a =>
      congrFun (congrArg Getters.objects hgetters) a
    have hbhash : c.context.bhash = s.context.bhash := congrArg Getters.bhash hgetters
    have hindex : c.context.txIndex = s.context.txIndex := congrArg Getters.txIndex hgetters
    rw [heq] at hbhash hindex
    refine ⟨hdirty, fun a ha => ?_, hbhash.symm, hindex.symm⟩
    rw [← hobjects a, object_copy_of_clean hc ha]
  · rintro ⟨hdirty, hclean, hbhash, hindex⟩
    have hc := copy_eq_ok.2 ⟨hdirty, rfl⟩
    refine ⟨_, hc, ?_, fun b => intermediateRoot_copy hc⟩
    have hobjects : ∀ c, s.copy = .ok c →
        (fun a => (c.object a).map view) = fun a => (s.object a).map view := by
      intro c hc
      funext a
      by_cases ha : a ∈ s.stateObjectsDirty
      · exact object_copy_of_dirty hc ha
      · rw [object_copy_of_clean hc ha, hclean a ha]
    rw [getters, hobjects _ hc]
    simp only [getters, hbhash, hindex]

end JournaledDB

/-! ## A missing entry is read -/

namespace MissingEntry

/-- An account whose amounts are all 1 and that has no entries is stored. -/
def stored : JournaledDB :=
  .new ⟨fun a => if a = [1] then some ⟨{ AccountData.new with amount := fun _ => 1 },
    fun _ => none, fun _ => ∅, fun _ => none, fun _ => none⟩ else none, fun _ => none, none⟩

/-- The entry of a user that has not delegated is read, and then the balance is set. -/
def read : Except Panic JournaledDB := do
  let s ← (ContractCall.getByUser [1] [2]).exec stored
  (Call.set .balance [1] 2).exec s

/-- After one read of a missing entry and one write, `Copy` panics. -/
theorem copy_panics : ∃ s, read = .ok s ∧ s.copy = .error .nilDereference ∧ ¬ s.CopyFaithful := by
  have hpanic : ∃ s, read = .ok s ∧ s.copy = .error .nilDereference :=
    ⟨_, rfl, if_pos ⟨[1], by decide, by decide +kernel⟩⟩
  obtain ⟨s, hs, hcopy⟩ := hpanic
  refine ⟨s, hs, hcopy, ?_⟩
  rintro ⟨c, hc, -⟩
  rw [hcopy] at hc
  cases hc

end MissingEntry

end NeatPoS
