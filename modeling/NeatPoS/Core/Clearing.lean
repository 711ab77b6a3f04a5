import NeatPoS.Core.Finalise

/-!
# What clearing empty accounts may lose

`Finalise(true)` and `Commit(true)` delete the dirty objects that `empty` accepts.  `empty` asks for
the nonce, the code and ten of the amounts.  It does not ask for `RewardBalance`, nor for the
entries of the account's tries, and the rewards of an account are in just these two places.  So an
account that has nothing but rewards is deleted with them.

`clearing_loses_nothing_iff` says that these are all the values that can be lost.
-/

set_option autoImplicit false

namespace NeatPoS

namespace StateObject

/-- The amounts of an account that are worth something. -/
def valueFields : List AmountField :=
  [.balance, .depositBalance, .delegateBalance, .proxiedBalance, .depositProxiedBalance,
    .pendingRefundBalance, .chainBalance, .rewardBalance, .availableRewardBalance]

/-- There are no entries in the proxied trie and the reward trie, and no transaction hashes. -/
structure NoEntries (o : StateObject) : Prop where
  proxied : ∀ user, (o.proxied.get user).getD ⟨0, 0, 0⟩ = ⟨0, 0, 0⟩
  reward : ∀ deleAddress, (o.reward.get deleAddress).getD 0 = 0
  tx : ∀ kind, (o.tx kind).trie = ∅ ∧ (o.tx kind).dirty = ∅

/-- Nothing is lost with the account. -/
structure Worthless (o : StateObject) : Prop where
  amounts : ∀ f ∈ valueFields, o.data.amount f = 0
  sideChains : ∀ c ∈ o.data.sideChainDepositBalance, c.2 = 0
  entries : o.NoEntries

variable {o : StateObject}

/-- What `empty` asks for leaves the reward balance and the entries. -/
theorem worthless_iff_of_empty (h : o.empty = true) :
    o.Worthless ↔ o.data.amount .rewardBalance = 0 ∧ o.NoEntries := by
  constructor
  · intro hw
    exact ⟨hw.amounts .rewardBalance (by decide), hw.entries⟩
  rintro ⟨hreward, hentries⟩
  simp only [empty, Bool.and_eq_true, beq_iff_eq, List.isEmpty_iff] at h
  refine ⟨fun f hf => ?_, fun c hc => ?_, hentries⟩
  · simp only [valueFields, List.mem_cons, List.not_mem_nil, or_false] at hf
    rcases hf with rfl | rfl | rfl | rfl | rfl | rfl | rfl | rfl | rfl <;> tauto
  · have hnil : o.data.sideChainDepositBalance = [] := by tauto
    rw [hnil] at hc
    simp at hc

end StateObject

namespace JournaledDB

variable {s s' : JournaledDB} {a : Address} {o : StateObject}

/-- `Finalise(true)` and `Commit(true)` delete an account that has not suicided only if nothing is
lost with it. -/
def ClearsWorthless (s : JournaledDB) : Prop :=
  ∀ s', s.finalise true = .ok s' ∨ s.commit true = .ok s' →
    ∀ a o, s.object a = some o → o.suicided = false → s'.object a = none → o.Worthless

/-- A dirty account that has not suicided is taken for empty. -/
def TakenForEmpty (s : JournaledDB) (a : Address) (o : StateObject) : Prop :=
  a ∈ s.stateObjectsDirty ∧ s.stateObjects a = some o ∧ o.deleted = false ∧ o.suicided = false ∧
    o.empty = true

theorem TakenForEmpty.deleted (h : s.TakenForEmpty a o) (hc : s.commit true = .ok s') :
    s'.object a = none := by
  obtain ⟨ha, hcached, hd, hs, he⟩ := h
  rw [object_commit_eq_none hc (object_eq_some.2 (.inl ⟨hcached, hd⟩)) hs]
  exact ⟨ha, hcached, by simp [StateObject.clears, he]⟩

theorem takenForEmpty_of_deleted (h : s.finalise true = .ok s' ∨ s.commit true = .ok s')
    (ho : s.object a = some o) (hs : o.suicided = false) (hnone : s'.object a = none) :
    s.TakenForEmpty a o := by
  have hgone : a ∈ s.stateObjectsDirty ∧ s.stateObjects a = some o ∧ o.clears true = true := by
    rcases h with h | h
    · exact (object_finalise_eq_none h ho).1 hnone
    · exact (object_commit_eq_none h ho hs).1 hnone
  refine ⟨hgone.1, hgone.2.1, deleted_of_object ho, hs, ?_⟩
  simpa [StateObject.clears, hs] using hgone.2.2

/-- **Clearing loses rewards and entries, and nothing else.**  Nothing is lost if and only if the
dirty accounts that `empty` accepts have no reward balance and no entries, or there is a panic
before anything is written. -/
theorem clearing_loses_nothing_iff (s : JournaledDB) :
    s.ClearsWorthless ↔
      (s.commitPanic true = none → ∀ a o, s.TakenForEmpty a o →
        o.data.amount .rewardBalance = 0 ∧ o.NoEntries) := by
  constructor
  · intro h hpanic a o hto
    have hcommit : ∃ s', s.commit true = .ok s' := by
      rw [commit, hpanic]
      exact ⟨_, rfl⟩
    obtain ⟨s', hs'⟩ := hcommit
    have hw := h s' (.inr hs') a o (object_eq_some.2 (.inl ⟨hto.2.1, hto.2.2.1⟩))
      hto.2.2.2.1 (hto.deleted hs')
    exact (StateObject.worthless_iff_of_empty hto.2.2.2.2).1 hw
  · intro h s' hs' a o ho hs hnone
    have hto := takenForEmpty_of_deleted hs' ho hs hnone
    have hpanic : s.commitPanic true = none := by
      rcases hs' with hs' | hs'
      · exact commitPanic_of_flushPanic (flushPanic_of_finalise hs')
      · exact commitPanic_of_commit hs'
    exact (StateObject.worthless_iff_of_empty hto.2.2.2.2).2 (h hpanic a o hto)

end JournaledDB

/-! ## A reward is lost -/

namespace OnlyReward

/-- An account that has earned 5 and has nothing else. -/
def rewarded : JournaledDB :=
  DbAction.runAll (.new .empty) [.create [1], .edit [1] (.delegateRewardBalance [2] (some 5)),
    .edit [1] (.amount .rewardBalance 5)]

/-- The first reward of an account is deleted with it. -/
theorem clearing_loses_reward : ¬ rewarded.ClearsWorthless := by
  intro h
  have hpanic : rewarded.commitPanic true = none := by decide +kernel
  have hcommit : ∃ s', rewarded.commit true = .ok s' := by
    rw [JournaledDB.commit, hpanic]
    exact ⟨_, rfl⟩
  obtain ⟨s', hs'⟩ := hcommit
  have hto : rewarded.TakenForEmpty [1] (rewarded.objectOrNew [1]) :=
    ⟨by decide, rfl, rfl, rfl, by decide⟩
  have hw := h s' (.inr hs') [1] (rewarded.objectOrNew [1]) rfl rfl (hto.deleted hs')
  exact absurd (hw.amounts .rewardBalance (by decide)) (by decide)

end OnlyReward

end NeatPoS
