import NeatPoS.Core.Steps

/-!
# The content of an account

What an account is, as opposed to how it is cached: its fields, and the amounts, words and hashes
that are read from its tries, with zero for an amount that is not there (`content`).  The setters
act on the content (`memory_apply_congr`), and undoing one gives it back (`memory_restore`), with
the exception of a side chain that the account had no deposit in: it keeps a place in the list.

`content_load_stored` is the link to the state trie.  What is written of an object is read back as
it was, if no amount in its tries is negative.
-/

set_option autoImplicit false

namespace NeatPoS

namespace StateObject

/-- What an object has in memory. -/
structure Memory where
  data : AccountData
  storage : TxHash → Option Bytes
  proxied : Address → AccountProxiedBalance
  reward : Address → Int
  tx : TxKind → MarkCache

/-- What the getters show of it. -/
structure Content where
  data : AccountData
  storage : TxHash → Option Bytes
  proxied : Address → AccountProxiedBalance
  reward : Address → Int
  /-- All hashes, whether or not they are in the trie already. -/
  marks : TxKind → Finset TxHash
  hasTX : TxKind → TxHash → Bool

/-- The memory of an object. -/
def memory (o : StateObject) : Memory where
  data := o.data
  storage := o.storage.get
  proxied := fun user => (o.proxied.get user).getD ⟨0, 0, 0⟩
  reward := fun deleAddress => (o.reward.get deleAddress).getD 0
  tx := o.tx

/-- Forgets which of the hashes are pending. -/
def Memory.content (m : Memory) : Content where
  data := m.data
  storage := m.storage
  proxied := m.proxied
  reward := m.reward
  marks := fun kind => (m.tx kind).trie ∪ (m.tx kind).dirty
  hasTX := fun kind => (m.tx kind).has

/-- The content of an object. -/
def content (o : StateObject) : Content := o.memory.content

variable {o o' : StateObject}

/-! ## Setters -/

theorem memory_apply_congr (h : o'.memory = o.memory) (e : Edit) :
    (e.apply o').memory = (e.apply o).memory := by
  obtain ⟨hdata, hstorage, hproxied, hreward, htx⟩ := Memory.mk.inj h
  cases e with
  | state =>
    simp only [memory, Edit.apply, EntryCache.get_set, hstorage]
    rw [hdata, hproxied, hreward, htx]
  | accountProxiedBalance key v =>
    have hset : (fun user => ((o'.proxied.set key v).get user).getD ⟨0, 0, 0⟩) =
        fun user => ((o.proxied.set key v).get user).getD ⟨0, 0, 0⟩ := by
      funext user
      rw [EntryCache.get_set, EntryCache.get_set]
      by_cases hk : user = key
      · rw [hk, Function.update_self, Function.update_self]
      · rw [Function.update_of_ne hk, Function.update_of_ne hk]
        exact congrFun hproxied user
    simp only [memory, Edit.apply]
    rw [hdata, hstorage, hset, hreward, htx]
  | delegateRewardBalance key v =>
    have hset : (fun user => ((o'.reward.set key v).get user).getD 0) =
        fun user => ((o.reward.set key v).get user).getD 0 := by
      funext user
      rw [EntryCache.get_set, EntryCache.get_set]
      by_cases hk : user = key
      · rw [hk, Function.update_self, Function.update_self]
      · rw [Function.update_of_ne hk, Function.update_of_ne hk]
        exact congrFun hreward user
    simp only [memory, Edit.apply]
    rw [hdata, hstorage, hproxied, hset, htx]
  | _ =>
    simp only [memory, Edit.apply]
    rw [hdata, hstorage, hproxied, hreward, htx]

theorem memory_setPending_congr (h : o'.memory = o.memory) (kind : TxKind)
    (f : Finset TxHash → Finset TxHash) :
    (o'.setPending kind (f (o'.tx kind).dirty)).memory =
      (o.setPending kind (f (o.tx kind).dirty)).memory := by
  obtain ⟨hdata, hstorage, hproxied, hreward, htx⟩ := Memory.mk.inj h
  simp only [memory, setPending]
  rw [hdata, hstorage, hproxied, hreward, htx]

theorem memory_read (entry : EntryRead) : (entry.apply o).memory = o.memory := by
  cases entry with
  | state | accountProxiedBalance | delegateRewardBalance =>
    simp [memory, EntryRead.apply, EntryCache.get_fetch]

/-- Undoing the setter gives the content back: a deposit is in a side chain the account has one in.
-/
def Restores (o : StateObject) : Edit → Prop
  | .sideChainDepositBalance chainId _ => ∃ c ∈ o.data.sideChainDepositBalance, c.1 = chainId
  | _ => True

theorem setSideChainDeposit_restore {chainId : String} (amount : Int) {cs : List (String × Int)}
    (h : ∃ c ∈ cs, c.1 = chainId) :
    setSideChainDeposit chainId (match cs.find? (fun c => c.1 == chainId) with
      | some c => c.2
      | none => 0) (setSideChainDeposit chainId amount cs) = cs := by
  induction cs with
  | nil => simp at h
  | cons c cs ih =>
    by_cases hc : c.1 = chainId
    · subst hc
      simp [setSideChainDeposit]
    have hrest : ∃ c ∈ cs, c.1 = chainId := by
      obtain ⟨d, hd, hid⟩ := h
      rcases List.mem_cons.1 hd with rfl | hd
      · exact absurd hid hc
      · exact ⟨d, hd, hid⟩
    simp only [setSideChainDeposit, List.find?, beq_eq_false_iff_ne.2 hc, Bool.false_eq_true,
      if_false, List.cons.injEq, true_and]
    exact ih hrest

theorem memory_restore {e : Edit} (h : o.Restores e) : ((e.prev o).apply (e.apply o)).memory =
    o.memory := by
  cases e with
  | amount => simp [memory, Edit.apply, Edit.prev]
  | sideChainDepositBalance chainId x =>
    have hlist : setSideChainDeposit chainId (o.sideChainDepositBalance chainId)
        (setSideChainDeposit chainId x o.data.sideChainDepositBalance) =
          o.data.sideChainDepositBalance := setSideChainDeposit_restore x h
    simp only [memory, Edit.apply, Edit.prev, hlist]
  | state | accountProxiedBalance | delegateRewardBalance =>
    simp [memory, Edit.apply, Edit.prev, EntryCache.get_set]
  | _ => rfl

/-! ## Writing -/

/-- What is cached of the tries and is not in them was refused. -/
structure Refused (o : StateObject) : Prop where
  storage : o.storage.Refused fun _ => true
  proxied : o.proxied.Refused keepProxied
  reward : o.reward.Refused keepReward

theorem refused_load (st : StoredAccount) : (load st).Refused :=
  ⟨EntryCache.refused_ofBase _ _, EntryCache.refused_ofBase _ _, EntryCache.refused_ofBase _ _⟩

theorem refused_new : new.Refused :=
  ⟨EntryCache.refused_ofBase _ _, EntryCache.refused_ofBase _ _, EntryCache.refused_ofBase _ _⟩

theorem Refused.apply (h : o.Refused) (e : Edit) : (e.apply o).Refused := by
  cases e with
  | state key v => exact ⟨h.storage.set key v, h.proxied, h.reward⟩
  | accountProxiedBalance key v => exact ⟨h.storage, h.proxied.set key v, h.reward⟩
  | delegateRewardBalance key v => exact ⟨h.storage, h.proxied, h.reward.set key v⟩
  | _ => exact ⟨h.storage, h.proxied, h.reward⟩

theorem Refused.read (h : o.Refused) (entry : EntryRead) : (entry.apply o).Refused := by
  cases entry with
  | state key => exact ⟨h.storage.fetch key, h.proxied, h.reward⟩
  | accountProxiedBalance user => exact ⟨h.storage, h.proxied.fetch user, h.reward⟩
  | delegateRewardBalance user => exact ⟨h.storage, h.proxied, h.reward.fetch user⟩

theorem Refused.update (h : o.Refused) : o.update.Refused :=
  ⟨h.storage.flush, h.proxied.flush, h.reward.flush⟩

theorem Refused.finalised (h : o.Refused) (b : Bool) : (o.finalised b).Refused := by
  rw [StateObject.finalised]
  split
  · exact ⟨h.storage, h.proxied, h.reward⟩
  · exact h.update

/-- No amount in the tries of an account is negative. -/
structure NonNegative (o : StateObject) : Prop where
  proxied : ∀ user, ((o.proxied.get user).getD ⟨0, 0, 0⟩).encodable = true
  reward : ∀ deleAddress, 0 ≤ (o.reward.get deleAddress).getD 0

/-- No pending hash begins with a zero byte. -/
def NoLeadingZero (o : StateObject) : Prop :=
  ∀ kind, ∀ h ∈ (o.tx kind).dirty, h.head? ≠ some 0

theorem content_update (h : o.NoLeadingZero) : o.update.content = o.content := by
  have htx : ∀ kind, (o.tx kind).flush.has = (o.tx kind).has := by
    intro kind
    funext hash
    have hzero := h kind hash
    simp only [MarkCache.has, MarkCache.flush, Finset.notMem_empty, Finset.mem_union, false_or]
    refine decide_eq_decide.2 ?_
    tauto
  have hmarks : ∀ kind, (o.tx kind).flush.trie ∪ (o.tx kind).flush.dirty =
      (o.tx kind).trie ∪ (o.tx kind).dirty := fun kind => Finset.union_empty _
  simp only [content, Memory.content, memory, update, EntryCache.get_flush, htx, hmarks]

theorem getD_proxied_of_refused (h : o.Refused) (hclean : o.proxied.dirty = ∅)
    (hn : o.NonNegative) (user : Address) :
    (o.proxied.base user).getD ⟨0, 0, 0⟩ = (o.proxied.get user).getD ⟨0, 0, 0⟩ := by
  rcases EntryCache.base_of_refused h.proxied hclean user with hb | ⟨hb, hget⟩
  · rw [hb]
  rw [hb]
  cases hg : o.proxied.get user with
  | none => rfl
  | some apb =>
    have hkeep := hget apb hg
    have henc := hn.proxied user
    rw [hg, Option.getD_some] at henc
    simp only [keepProxied, henc, Bool.and_true, Bool.not_eq_false',
      AccountProxiedBalance.isEmpty, beq_iff_eq] at hkeep
    exact hkeep.symm

theorem getD_reward_of_refused (h : o.Refused) (hclean : o.reward.dirty = ∅) (hn : o.NonNegative)
    (deleAddress : Address) :
    (o.reward.base deleAddress).getD 0 = (o.reward.get deleAddress).getD 0 := by
  rcases EntryCache.base_of_refused h.reward hclean deleAddress with hb | ⟨hb, hget⟩
  · rw [hb]
  rw [hb]
  cases hg : o.reward.get deleAddress with
  | none => rfl
  | some x =>
    have hkeep := hget x hg
    have henc := hn.reward deleAddress
    rw [hg, Option.getD_some] at henc
    simp only [keepReward, henc, decide_true, Bool.and_true, bne_eq_false_iff_eq] at hkeep
    exact hkeep.symm

theorem storage_of_refused (h : o.Refused) (hclean : o.storage.dirty = ∅) :
    o.storage.base = o.storage.get := by
  funext key
  rcases EntryCache.base_of_refused h.storage hclean key with hb | ⟨hb, hget⟩
  · exact hb
  · rw [hb]
    cases hg : o.storage.get key with
    | none => rfl
    | some v => exact absurd (hget v hg) (by simp)

theorem NonNegative.update (h : o.NonNegative) : o.update.NonNegative := by
  refine ⟨fun user => ?_, fun deleAddress => ?_⟩
  · simp only [StateObject.update, EntryCache.get_flush]
    exact h.proxied user
  · simp only [StateObject.update, EntryCache.get_flush]
    exact h.reward deleAddress

/-- **What is written is read back.** -/
theorem content_load_stored (h : o.Refused) (hn : o.NonNegative) :
    (load o.update.stored).content = o.update.content := by
  have hstorage := storage_of_refused h.update rfl
  have hproxied := getD_proxied_of_refused h.update rfl hn.update
  have hreward := getD_reward_of_refused h.update rfl hn.update
  simp only [content, Memory.content, memory, load, stored, ← hstorage, ← hproxied, ← hreward]
  rfl

end StateObject

end NeatPoS
