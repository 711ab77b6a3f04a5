import NeatPoS.Core.Sets
import NeatPoS.Core.Actions

/-!
# What `Reset` forgets

`Reset` puts a database back to a root.  It empties the caches and the journal and opens the trie,
so that every getter answers as in a database that was just opened (`getters_reset`).  It does not
drop the flags that say that the sets of addresses and the block reward have to be written.  The
next `Finalise` or `Commit` therefore writes the emptied caches over what the trie holds.
`reset_forgets_iff` says when this shows in the root.
-/

set_option autoImplicit false

namespace NeatPoS

namespace JournaledDB

variable (s : JournaledDB) (root : StateTrie)

/-- The database answers as if it had just been opened at the root, and its root is that root. -/
def Forgets : Prop :=
  (s.reset root).getters = (new root).getters ∧
    ∀ deleteEmptyObjects, (s.reset root).intermediateRoot deleteEmptyObjects = .ok root ∧
      ((s.reset root).commit deleteEmptyObjects).map trie = .ok root

theorem getters_reset : (s.reset root).getters = (new root).getters := by
  have hsets : ∀ n, ((s.reset root).sets n).addresses = ((new root).sets n).addresses := by
    intro n
    rw [CachedSet.addresses_of_empty rfl, CachedSet.addresses_of_empty rfl]
    rfl
  rw [getters, funext hsets]
  rfl

/-- What is in the trie once the flags that were left over have had their effect. -/
def resetTrie : StateTrie where
  accounts := root.accounts
  sets := fun n => if (s.sets n).dirty then some ∅ else root.sets n
  sideChainRewardPerBlock :=
    if s.sideChainRewardPerBlock.dirty then some 0 else root.sideChainRewardPerBlock

theorem flushPanic_reset (b : Bool) : (s.reset root).flushPanic b = none := by
  simp [flushPanic, reset, clearJournalAndRefund, CachedAmount.unencodable]

theorem intermediateRoot_reset (b : Bool) :
    (s.reset root).intermediateRoot b = .ok (s.resetTrie root) := by
  have hsets : ∀ n, ((s.reset root).sets n).write.stored = (s.resetTrie root).sets n := by
    intro n
    cases h : (s.sets n).dirty with
    | true | false => simp [CachedSet.write, reset, clearJournalAndRefund, resetTrie, h]
  have hreward : (s.reset root).sideChainRewardPerBlock.write.stored =
      (s.resetTrie root).sideChainRewardPerBlock := by
    cases h : s.sideChainRewardPerBlock.dirty with
    | true | false => simp [CachedAmount.write, reset, clearJournalAndRefund, resetTrie, h]
  rw [intermediateRoot, finalise, flushPanic_reset]
  simp only [Except.map, trie, clearJournalAndRefund, Except.ok.injEq]
  rw [hreward, funext hsets]
  rfl

theorem commit_reset (b : Bool) : ((s.reset root).commit b).map trie = .ok (s.resetTrie root) := by
  have hpanic : (s.reset root).commitPanic b = none := by
    rw [commitPanic]
    exact flushPanic_reset s root b
  have hroot := intermediateRoot_reset s root b
  rw [intermediateRoot, finalise, flushPanic_reset] at hroot
  rw [commit, hpanic]
  exact hroot

theorem forgets_iff_trie : s.Forgets root ↔ s.resetTrie root = root := by
  simp only [Forgets, getters_reset, intermediateRoot_reset, commit_reset, Except.ok.injEq,
    true_and, and_self, forall_const]

/-- **`Reset` forgets everything but the dirty flags.**  It does so if and only if each flag that is
set stands for something that the trie holds as empty: an empty set, or a reward of zero. -/
theorem reset_forgets_iff :
    s.Forgets root ↔
      (∀ n, (s.sets n).dirty = true → root.sets n = some ∅) ∧
        (s.sideChainRewardPerBlock.dirty = true → root.sideChainRewardPerBlock = some 0) := by
  rw [forgets_iff_trie]
  constructor
  · intro h
    refine ⟨fun n hn => ?_, fun hd => ?_⟩
    · rw [← h]
      simp [resetTrie, hn]
    · rw [← h]
      simp [resetTrie, hd]
  · rintro ⟨hsets, hreward⟩
    refine StateTrie.ext rfl (funext fun n => ?_) ?_
    · by_cases hn : (s.sets n).dirty = true
      · rw [hsets n hn]
        exact if_pos hn
      · exact if_neg hn
    · by_cases hd : s.sideChainRewardPerBlock.dirty = true
      · rw [hreward hd]
        exact if_pos hd
      · exact if_neg hd

end JournaledDB

/-! ## A candidate is lost -/

namespace LeftOver

/-- A root at which one address is a candidate. -/
def root : StateTrie := ⟨fun _ => none, fun _ => some {[1]}, none⟩

/-- A database in which a second one was marked. -/
def marked : JournaledDB :=
  DbAction.runAll (.new root) [.changeSet .candidateSet (.mark [2])]

/-- After `MarkAddressCandidate` and `Reset`, the next root has no candidates. -/
theorem reset_remembers : ¬ marked.Forgets root := by
  rw [JournaledDB.forgets_iff_trie]
  intro h
  have hset : (marked.resetTrie root).sets .candidateSet = root.sets .candidateSet := by rw [h]
  exact absurd hset (by decide)

end LeftOver

end NeatPoS
