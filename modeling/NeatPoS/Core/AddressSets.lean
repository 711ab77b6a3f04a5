import NeatPoS.Core.Sets
import NeatPoS.Core.Steps

/-!
# Whether the sets of addresses are sets

The candidate set, the banned set, the refund set and the reward set are each a cache over an entry
of the state trie.  What they are for is to be a finite set of addresses: `AbstractSets` says so,
with the sets as they are and as they were when the state was last committed.

The caches fall short of it where they are empty.  An empty cache is taken for one that has not been
loaded, and it is written like any other.

* `ClearCandidateSetByAddress` and its like do not load the set.  On a fresh database the address
  stays in the set, and the next `Finalise` writes the empty cache: all addresses are gone.
* When the last address is cleared, the getter loads the old set from the trie again.

`sets_agree_iff` says that a run agrees with the abstract sets at every point if and only if no step
of it is one of these.
-/

set_option autoImplicit false

namespace NeatPoS

/-! ## One set -/

/-- What a call does to a set. -/
def SetCall.spec (m : Finset Address) : SetCall → Finset Address
  | mark addr => insert addr m
  | clearByAddress addr => m.erase addr
  | clear => ∅
  | get => m

/-- A call that changes the set as it should: when an address is cleared, another one is in the
cache, or the set is not loaded and the address is not in it, or it is the only one and nothing is
stored. -/
def SetCall.Safe (c : CachedSet) : SetCall → Prop
  | clearByAddress addr =>
    (∃ a ∈ c.cache, a ≠ addr) ∨ (c.cache = ∅ ∧ addr ∉ c.stored.getD ∅) ∨
      (c.cache = {addr} ∧ c.stored.getD ∅ = ∅)
  | _ => True

namespace CachedSet

/-- Writing the set loses nothing: it is not an empty cache over a set that is not empty. -/
def Flushable (c : CachedSet) : Prop := c.dirty = true → c.cache = ∅ → c.stored.getD ∅ = ∅

/-- What is cached and not going to be written is in the trie. -/
def Clean (c : CachedSet) : Prop := c.dirty = false → c.cache = ∅ ∨ c.stored = some c.cache

variable {c : CachedSet} {addr : Address}

theorem addresses_load (c : CachedSet) : c.load.addresses = c.addresses := by
  by_cases hc : c.cache = ∅
  · have hload : c.load = { c with cache := c.stored.getD ∅ } := if_pos hc
    rw [addresses_of_empty hc, hload]
    by_cases hs : c.stored.getD ∅ = ∅
    · exact addresses_of_empty hs
    · exact addresses_of_cache hs
  · rw [load, if_neg hc]

theorem addresses_mark (c : CachedSet) (addr : Address) :
    (c.mark addr).addresses = insert addr c.addresses := by
  ext a
  rw [mem_addresses_mark, Finset.mem_insert]

theorem addresses_clear : clear.addresses = ∅ := rfl

theorem addresses_clearByAddress_iff :
    (c.clearByAddress addr).addresses = c.addresses.erase addr ↔
      (SetCall.clearByAddress addr).Safe c := by
  by_cases hother : ∃ a ∈ c.cache, a ≠ addr
  · obtain ⟨a, ha, hne⟩ := hother
    have hcache : c.cache ≠ ∅ := Finset.ne_empty_of_mem ha
    have herase : c.cache.erase addr ≠ ∅ :=
      Finset.ne_empty_of_mem (Finset.mem_erase.2 ⟨hne, ha⟩)
    have hclear : (c.clearByAddress addr).addresses = c.cache.erase addr :=
      addresses_of_cache herase
    simp only [hclear, addresses_of_cache hcache, SetCall.Safe, true_iff]
    exact .inl ⟨a, ha, hne⟩
  · have hsub : ∀ a ∈ c.cache, a = addr := fun a ha => by
      by_contra hne
      exact hother ⟨a, ha, hne⟩
    have herase : c.cache.erase addr = ∅ := by
      refine Finset.eq_empty_of_forall_notMem fun a ha => ?_
      exact (Finset.mem_erase.1 ha).1 (hsub a (Finset.mem_erase.1 ha).2)
    have hclear : (c.clearByAddress addr).addresses = c.stored.getD ∅ :=
      addresses_of_empty herase
    rw [hclear]
    by_cases hcache : c.cache = ∅
    · rw [addresses_of_empty hcache, eq_comm, Finset.erase_eq_self]
      simp [SetCall.Safe, hcache, (Finset.singleton_ne_empty addr).symm]
    have hsingle : c.cache = {addr} :=
      Finset.eq_singleton_iff_nonempty_unique_mem.2 ⟨Finset.nonempty_iff_ne_empty.2 hcache, hsub⟩
    have hgone : c.addresses.erase addr = ∅ := by
      rw [addresses_of_cache hcache, hsingle, Finset.erase_singleton]
    rw [hgone]
    simp [SetCall.Safe, hsingle]

/-- A call changes the set as it should if and only if it is safe. -/
theorem addresses_apply_iff (c : CachedSet) (call : SetCall) :
    (call.apply c).addresses = call.spec c.addresses ↔ call.Safe c := by
  cases call with
  | mark => simp [SetCall.apply, SetCall.spec, SetCall.Safe, addresses_mark]
  | clearByAddress => exact addresses_clearByAddress_iff
  | clear => simp [SetCall.apply, SetCall.spec, SetCall.Safe, addresses_clear]
  | get => simp [SetCall.apply, SetCall.spec, SetCall.Safe, addresses_load]

theorem addresses_write_iff : c.write.addresses = c.addresses ↔ c.Flushable := by
  cases hd : c.dirty with
  | false => simp [write, Flushable, hd]
  | true =>
    have hwrite : c.write = { c with stored := some c.cache } := if_pos hd
    by_cases hc : c.cache = ∅
    · have hempty : c.write.addresses = ∅ := by
        have hread : c.write.addresses = (some c.cache).getD ∅ := by
          rw [hwrite]
          exact addresses_of_empty hc
        rw [hread, hc]
        rfl
      rw [hempty, addresses_of_empty hc, eq_comm]
      simp [Flushable, hd, hc]
    · have hsame : c.write.addresses = c.cache := by
        rw [hwrite]
        exact addresses_of_cache hc
      rw [hsame, addresses_of_cache hc]
      simp [Flushable, hc]

theorem addresses_commit (c : CachedSet) : c.commit.addresses = c.write.addresses := by
  by_cases hc : c.write.cache = ∅
  · rw [addresses_of_empty hc]
    exact addresses_of_empty hc
  · rw [addresses_of_cache hc]
    exact addresses_of_cache hc

theorem Clean.load (h : c.Clean) : c.load.Clean := by
  rw [CachedSet.load]
  split
  · intro _
    cases hs : c.stored with
    | none => exact .inl rfl
    | some => exact .inr rfl
  · exact h

theorem Clean.apply (h : c.Clean) (call : SetCall) : (call.apply c).Clean := by
  cases call with
  | mark =>
    simp only [SetCall.apply, CachedSet.mark]
    split
    · exact h.load
    · exact fun hd => Bool.noConfusion hd
  | clearByAddress => exact fun hd => Bool.noConfusion hd
  | clear => exact fun _ => .inl rfl
  | get => exact h.load

theorem Clean.write (h : c.Clean) : c.write.Clean := by
  rw [CachedSet.write]
  split
  · exact fun _ => .inr rfl
  · exact h

/-- Nothing is left to be written after `Commit`. -/
theorem Clean.commit (h : c.Clean) : c.commit.Clean := by
  intro _
  cases hd : c.dirty with
  | false =>
    have hsame : c.commit = { c with dirty := false } := by
      simp [CachedSet.commit, CachedSet.write, hd]
    rw [hsame]
    exact h hd
  | true =>
    right
    simp [CachedSet.commit, CachedSet.write, hd]

/-- What `Commit` stores is what is read afterwards. -/
theorem Clean.stored_commit (h : c.Clean) : c.commit.stored.getD ∅ = c.commit.addresses := by
  by_cases hc : c.commit.cache = ∅
  · exact (addresses_of_empty hc).symm
  rw [addresses_of_cache hc]
  rcases h.commit rfl with hempty | hstored
  · exact absurd hempty hc
  · rw [hstored]
    rfl

end CachedSet

/-! ## Runs -/

/-- The sets as they are meant. -/
structure AbstractSets where
  current : SetName → Finset Address
  /-- As they were when the state was last committed. -/
  committed : SetName → Finset Address

/-- The sets that are stored at a root. -/
def AbstractSets.ofRoot (root : StateTrie) : AbstractSets :=
  ⟨fun n => (root.sets n).getD ∅, fun n => (root.sets n).getD ∅⟩

/-- What may be done with the sets. -/
inductive SetOp where
  | call (name : SetName) (c : SetCall)
  | finalise (deleteEmptyObjects : Bool)
  | commit (deleteEmptyObjects : Bool)
  /-- The state is opened at the root of the last `Commit`. -/
  | reopen

namespace SetOp

/-- The database after an operation. -/
def run (s : OpenDB) : SetOp → Except Panic OpenDB
  | call name c => ((Call.changeSet name c).exec s.db).map fun db => ⟨db, s.root⟩
  | finalise b => (s.db.finalise b).map fun db => ⟨db, s.root⟩
  | commit b => (s.db.commit b).map fun db => ⟨db, db.trie⟩
  | reopen => .ok (.ofRoot s.root)

/-- The abstract sets after it. -/
def spec (m : AbstractSets) : SetOp → AbstractSets
  | call name c => { m with current := Function.update m.current name (c.spec (m.current name)) }
  | finalise _ => m
  | commit _ => { m with committed := m.current }
  | reopen => { m with current := m.committed }

/-- An operation that keeps to the abstract sets. -/
def Safe (s : OpenDB) : SetOp → Prop
  | call name c => c.Safe (s.db.sets name)
  | finalise _ => ∀ n, (s.db.sets n).Flushable
  | commit _ => ∀ n, (s.db.sets n).Flushable
  | reopen => True

end SetOp

/-- Every getter returns the abstract set. -/
def Agrees (s : OpenDB) (m : AbstractSets) : Prop := ∀ n, (s.db.sets n).addresses = m.current n

/-- The operations run without a panic, and the getters return the abstract sets before and after
each of them. -/
def Follows : OpenDB → AbstractSets → List SetOp → Prop
  | s, m, [] => Agrees s m
  | s, m, op :: ops => Agrees s m ∧ ∃ s', op.run s = .ok s' ∧ Follows s' (op.spec m) ops

/-- Every operation is safe in the state it is run in. -/
def SafeRun : OpenDB → List SetOp → Prop
  | _, [] => True
  | s, op :: ops => op.Safe s ∧ ∀ s', op.run s = .ok s' → SafeRun s' ops

theorem Follows.agrees {s : OpenDB} {m : AbstractSets} {ops : List SetOp} (h : Follows s m ops) :
    Agrees s m := by
  cases ops with
  | nil => exact h
  | cons => exact h.1

/-- What holds as long as the sets are followed. -/
structure Follower (s : OpenDB) (m : AbstractSets) : Prop where
  dirty : s.db.stateObjectsDirty = ∅
  reward : s.db.sideChainRewardPerBlock.dirty = false
  clean : ∀ n, (s.db.sets n).Clean
  committed : ∀ n, (s.root.sets n).getD ∅ = m.committed n
  agrees : Agrees s m

namespace Follower

variable {s : OpenDB} {m : AbstractSets}

theorem ofRoot (root : StateTrie) : Follower (.ofRoot root) (.ofRoot root) where
  dirty := rfl
  reward := rfl
  clean := fun _ _ => .inl rfl
  committed := fun _ => rfl
  agrees := fun _ => CachedSet.addresses_of_empty rfl

theorem flushPanic (h : Follower s m) (b : Bool) : s.db.flushPanic b = none := by
  rw [JournaledDB.flushPanic_eq_none, h.dirty]
  simp [CachedAmount.unencodable, h.reward]

/-- **One step.**  It does not panic, the sets are followed after it if and only if it is safe, and
then the rest is kept as well. -/
theorem step (h : Follower s m) (op : SetOp) :
    ∃ s', op.run s = .ok s' ∧ (Agrees s' (op.spec m) ↔ op.Safe s) ∧
      (op.Safe s → Follower s' (op.spec m)) := by
  cases op with
  | call name c =>
    refine ⟨_, rfl, ?_, ?_⟩
    · constructor
      · intro ha
        have hname := ha name
        simp only [SetOp.spec, Function.update_self, ← h.agrees name] at hname
        exact (CachedSet.addresses_apply_iff _ c).1 hname
      · intro hsafe n
        by_cases hn : n = name
        · subst hn
          simp only [SetOp.spec, Function.update_self, ← h.agrees n]
          exact (CachedSet.addresses_apply_iff _ c).2 hsafe
        · simp only [SetOp.spec, Function.update_of_ne hn]
          exact h.agrees n
    · intro hsafe
      refine ⟨h.dirty, h.reward, fun n => ?_, h.committed, fun n => ?_⟩
      · by_cases hn : n = name
        · subst hn
          simp only [Function.update_self]
          exact (h.clean n).apply c
        · simp only [Function.update_of_ne hn]
          exact h.clean n
      · by_cases hn : n = name
        · subst hn
          simp only [SetOp.spec, Function.update_self, ← h.agrees n]
          exact (CachedSet.addresses_apply_iff _ c).2 hsafe
        · simp only [SetOp.spec, Function.update_of_ne hn]
          exact h.agrees n
  | finalise b =>
    have hok : ∃ db, s.db.finalise b = .ok db := by
      rw [JournaledDB.finalise, h.flushPanic b]
      exact ⟨_, rfl⟩
    obtain ⟨db, hdb⟩ := hok
    have hsets : ∀ n, db.sets n = (s.db.sets n).write := fun n => by
      rw [JournaledDB.eq_of_finalise hdb]
      rfl
    have hagrees : Agrees ⟨db, s.root⟩ m ↔ ∀ n, (s.db.sets n).Flushable := by
      simp only [Agrees, hsets, ← h.agrees _, CachedSet.addresses_write_iff]
    refine ⟨⟨db, s.root⟩, by rw [SetOp.run, hdb]; rfl, hagrees, fun hsafe => ?_⟩
    refine ⟨?_, ?_, fun n => ?_, h.committed, hagrees.2 hsafe⟩
    · exact (JournaledDB.stateObjectsDirty_finalise hdb).trans h.dirty
    · rw [JournaledDB.eq_of_finalise hdb]
      simp [JournaledDB.clearJournalAndRefund, CachedAmount.write, h.reward]
    · simp only [hsets]
      exact (h.clean n).write
  | commit b =>
    have hok : ∃ db, s.db.commit b = .ok db := by
      rw [JournaledDB.commit, JournaledDB.commitPanic_of_flushPanic (h.flushPanic b)]
      exact ⟨_, rfl⟩
    obtain ⟨db, hdb⟩ := hok
    have hsets : ∀ n, db.sets n = (s.db.sets n).commit := fun n => by
      rw [JournaledDB.eq_of_commit hdb]
      rfl
    have hagrees : Agrees ⟨db, db.trie⟩ ((SetOp.commit b).spec m) ↔
        ∀ n, (s.db.sets n).Flushable := by
      simp only [Agrees, SetOp.spec, hsets, CachedSet.addresses_commit, ← h.agrees _,
        CachedSet.addresses_write_iff]
    refine ⟨⟨db, db.trie⟩, by rw [SetOp.run, hdb]; rfl, hagrees, fun hsafe => ?_⟩
    refine ⟨?_, ?_, fun n => ?_, fun n => ?_, hagrees.2 hsafe⟩
    · refine Finset.eq_empty_of_forall_notMem fun a ha => ?_
      have hmem := ((JournaledDB.mem_stateObjectsDirty_commit hdb).1 ha).1
      rw [h.dirty] at hmem
      exact absurd hmem (Finset.notMem_empty a)
    · rw [JournaledDB.eq_of_commit hdb]
      rfl
    · simp only [hsets]
      exact (h.clean n).commit
    · have hn := hagrees.2 hsafe n
      simp only [SetOp.spec] at hn ⊢
      rw [← hn]
      simp only [JournaledDB.trie, hsets]
      exact (h.clean n).stored_commit
  | reopen =>
    have hagrees : Agrees (.ofRoot s.root) (SetOp.reopen.spec m) := fun n => by
      exact (CachedSet.addresses_of_empty rfl).trans (h.committed n)
    refine ⟨_, rfl, by simp [SetOp.Safe, hagrees], fun _ => ?_⟩
    exact ⟨rfl, rfl, fun _ _ => .inl rfl, h.committed, hagrees⟩

end Follower

theorem follows_iff {s : OpenDB} {m : AbstractSets} (h : Follower s m) (ops : List SetOp) :
    Follows s m ops ↔ SafeRun s ops := by
  induction ops generalizing s m with
  | nil => exact ⟨fun _ => trivial, fun _ => h.agrees⟩
  | cons op _ ih =>
    obtain ⟨s', hs', hagrees, hkeeps⟩ := h.step op
    constructor
    · rintro ⟨-, _, hs'', hfollows⟩
      obtain rfl := Except.ok.inj (hs'.symm.trans hs'')
      have hsafe := hagrees.1 hfollows.agrees
      refine ⟨hsafe, fun t ht => ?_⟩
      obtain rfl := Except.ok.inj (hs'.symm.trans ht)
      exact (ih (hkeeps hsafe)).1 hfollows
    · rintro ⟨hsafe, hrest⟩
      exact ⟨h.agrees, s', hs', (ih (hkeeps hsafe)).2 (hrest s' hs')⟩

/-- **The sets are sets as long as no empty cache is mistaken.**  From any root, the getters return
the abstract sets throughout a run if and only if every step of the run is safe. -/
theorem sets_agree_iff (root : StateTrie) (ops : List SetOp) :
    Follows (.ofRoot root) (.ofRoot root) ops ↔ SafeRun (.ofRoot root) ops :=
  follows_iff (.ofRoot root) ops

/-! ## A ban that is not lifted -/

namespace BanStays

/-- One address is banned. -/
def root : StateTrie := ⟨fun _ => none, fun _ => some {[1]}, none⟩

/-- Clearing the ban on a fresh database has no effect on the set that is read. -/
theorem sets_disagree :
    ¬ Follows (.ofRoot root) (.ofRoot root) [.call .bannedSet (.clearByAddress [1])] := by
  rintro ⟨-, _, hs', hagrees⟩
  cases hs'
  exact absurd (hagrees .bannedSet) (by decide)

end BanStays

end NeatPoS
