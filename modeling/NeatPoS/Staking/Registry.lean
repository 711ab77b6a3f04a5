import NeatPoS.Staking.Frames
import NeatPoS.Staking.Runs

/-!
# Who is registered, and with which key

The flag and the key of an account are set by `registerApplyCb` and cleared by `unRegisterApplyCb`,
and by nothing else that a transaction or the epoch switch does.  `RegistryChange` is what a
callback does to them and to the candidate set.

There is one more way to lose a registration: `Finalise(true)` deletes the empty accounts.  It does
not happen to an account with a key.  The transaction that registers it leaves a delegation, so that
the account is not empty then, and raises the nonce, so that it will never be empty again (`Keyed`).
-/

set_option autoImplicit false

namespace NeatPoS

open DFinsupp Ledger

namespace StateDB

/-! ## The callbacks -/

/-- Whether an account is a candidate, and its key. -/
def registration (acc : Account) : Bool × Bytes := (acc.candidate, acc.pubkey)

/-- The registrations of all accounts. -/
abbrev registrations (s : StateDB) : Address → Bool × Bytes := part registration s

theorem registrations_frame : SwitchFrame registrations where
  toFrame := part_frame fun _ => rfl
  bannedSet := fun _ _ => rfl
  setBanned := fun s a _ => setAccount_part s a fun _ => rfl
  setBannedTime := fun s a _ => setAccount_part s a fun _ => rfl
  setMinedBlocks := fun s a _ => setAccount_part s a fun _ => rfl
  clearCommission := fun s a => setAccount_part s a fun _ => rfl
  getCandidateSet := fun _ => rfl
  deleteCandidate := fun _ _ => rfl

theorem candidateSet_frame : BanFrame fun s => s.candidateSet where
  getOrNewStateObject := getOrNewStateObject_candidateSet
  markStateObjectDirty := fun _ _ => rfl
  post := fun _ _ _ => rfl
  delegateRefundSet := fun _ _ => rfl
  bannedSet := fun _ _ => rfl
  setBanned := fun s a _ => setAccount_candidateSet s a _
  setBannedTime := fun s a _ => setAccount_candidateSet s a _
  setMinedBlocks := fun s a _ => setAccount_candidateSet s a _

theorem setAccount_registrations (s : StateDB) (a : Address) {φ : Account → Account}
    {r : Bool × Bytes} (hφ : ∀ acc, registration (φ acc) = r) :
    (s.setAccount a φ).registrations = Function.update s.registrations a r := by
  funext b
  show registration ((s.setAccount a φ).accounts b) = _
  rw [setAccount_accounts]
  by_cases hb : b = a
  · rw [if_pos hb, hb, Function.update_self, hφ]
  · rw [if_neg hb, Function.update_of_ne hb]
    rfl

/-- What a callback does to the registrations and to the candidate set. -/
inductive RegistryChange (tx : StakingTx) (s s' : StateDB) : Prop
  | keeps (hcall : tx.call ≠ .unRegister) (hreg : s'.registrations = s.registrations)
      (hset : s'.candidateSet = s.candidateSet)
  | enrols (hcall : tx.call ≠ .unRegister) (key : Bytes) (hcand : s.isCandidate tx.sender = false)
      (hlen : key.length = 128)
      (hreg : s'.registrations = Function.update s.registrations tx.sender (true, key))
      (hset : s'.candidateSet = s.candidateSet.load.mark tx.sender)
      (hentry : s'.getAccountProxiedBalance tx.sender tx.sender ≠ ⟨0, 0, 0⟩)
  | dismisses (hcall : tx.call = .unRegister)
      (hreg : s'.registrations = Function.update s.registrations tx.sender (false, []))
      (hset : s'.candidateSet = (s.candidateSet.load.clearByAddress tx.sender).load)

section Callbacks

variable {rt : Runtime} {bc : ChainView} {tx : StakingTx} {s s' : StateDB}
  {ops : List UpdateNextEpochOp}

/-- The operations of a callback carry the key of the account. -/
theorem applyCb_ops (h : applyCb rt bc tx s = .ok (s', ops)) {op : UpdateNextEpochOp}
    (hop : op ∈ ops) : op.pubKey = (s'.accounts op.source).pubkey ∧ op.pubKey.length = 128 := by
  have hupdate {t : StateDB} {c : Address}
      (h : updateNextEpochValidatorVoteSet rt bc t c = .ok (s', ops)) :
      op.pubKey = (s'.accounts op.source).pubkey ∧ op.pubKey.length = 128 := by
    obtain ⟨-, ⟨-, -, hlen, rfl⟩ | ⟨-, rfl⟩⟩ := updateNextEpochValidatorVoteSet_ok h
    · obtain rfl := List.mem_singleton.1 hop
      exact ⟨rfl, hlen⟩
    · cases hop
  have hnone (hnil : ops = []) : op.pubKey = (s'.accounts op.source).pubkey ∧
    op.pubKey.length = 128 := by
    rw [hnil] at hop
    cases hop
  rw [applyCb] at h
  cases hcall : tx.call with
  | register =>
    rw [hcall] at h
    exact hupdate (registerApplyCb_ok h).2.2.2.2
  | unRegister =>
    rw [hcall] at h
    exact hnone (unRegisterApplyCb_ok h).2.2.2.1
  | delegate =>
    rw [hcall] at h
    obtain ⟨-, -, ⟨-, hnil⟩ | h⟩ := delegateApplyCb_ok h
    · exact hnone hnil
    · exact hupdate h
  | unDelegate =>
    rw [hcall] at h
    exact hnone (unDelegateApplyCb_ok h).2.2.1
  | withdrawReward =>
    rw [hcall] at h
    exact hnone (withdrawRewardApplyCb_ok h).2.1
  | setCommission =>
    rw [hcall] at h
    exact hnone (setCommissionApplyCb_ok h).2.1
  | unBanned =>
    rw [hcall] at h
    exact hnone (unBannedApplyCb_ok h).2.2.1

theorem blsPubKey_length (pubkey : Bytes) : (blsPubKey pubkey).length = 128 := by
  rw [blsPubKey, List.length_take, List.length_append, List.length_replicate]
  omega

theorem registerApplyCb_registry {pubkey signature : Bytes} {commission : Nat} (hs : Sound s)
    (hcall : tx.call ≠ .unRegister)
    (h : registerApplyCb rt bc tx pubkey signature commission s = .ok (s', ops)) :
    RegistryChange tx s s' := by
  obtain ⟨hclean, hvalue, -, -, h⟩ := registerApplyCb_ok h
  rw [isCleanAddress, Bool.and_eq_true, decide_eq_true_eq, Bool.not_eq_true'] at hclean
  refine .enrols hcall (blsPubKey pubkey) hclean.1 (blsPubKey_length pubkey) ?_ ?_ ?_
  · rw [registrations_frame.updateNextEpochValidatorVoteSet _ h]
    have happly (t : StateDB) :
        (t.applyForCandidate tx.sender (blsPubKey pubkey) commission).registrations =
        Function.update t.registrations tx.sender (true, blsPubKey pubkey) :=
      setAccount_registrations t tx.sender fun _ => rfl
    show ((s.getCandidateSet.delegated tx.sender tx.sender tx.value).applyForCandidate tx.sender
      (blsPubKey pubkey) commission).registrations = _
    rw [happly, registrations_frame.delegated]
    rfl
  · have hkeep : s'.candidateSet =
      (s.enrolled tx.sender (blsPubKey pubkey) commission tx.value).candidateSet :=
      candidateSet_frame.updateNextEpochValidatorVoteSet _ h
    have hset : ((s.getCandidateSet.delegated tx.sender tx.sender tx.value).applyForCandidate
        tx.sender (blsPubKey pubkey) commission).candidateSet = s.candidateSet.load :=
      (setAccount_candidateSet _ tx.sender _).trans
        (candidateSet_frame.delegated s.getCandidateSet tx.sender tx.sender tx.value)
    rw [hkeep, enrolled, markAddressCandidate]
    show CachedSet.mark _ tx.sender = _
    rw [hset]
  · -- what the sender has delegated to itself is there, as a proxied amount or as a deposit
    have hzero := hs.entry_eq_zero hclean.2 tx.sender
    rw [getAccountProxiedBalance, AccountProxiedBalance.mk.injEq] at hzero
    have henrolled : (s.enrolled tx.sender (blsPubKey pubkey) commission
        tx.value).getAccountProxiedBalance tx.sender tx.sender = ⟨tx.value, 0, 0⟩ := by
      rw [enrolled_entry, delegated_entry, if_pos ⟨rfl, rfl⟩]
      show (⟨s.amounts (.proxied tx.sender tx.sender) + tx.value,
        s.amounts (.depositProxied tx.sender tx.sender) + 0,
        s.amounts (.pendingRefund tx.sender tx.sender) + 0⟩ : AccountProxiedBalance) = _
      rw [hzero.1, hzero.2.1, hzero.2.2]
      simp
    have hpos : (0 : Int) < tx.value := by
      have : 0 < minimumRegisterAmount := by decide
      omega
    have hamounts := henrolled
    rw [getAccountProxiedBalance, AccountProxiedBalance.mk.injEq] at hamounts
    intro hnone
    rcases (updateNextEpochValidatorVoteSet_deposits h).entry tx.sender with he | he
    · rw [henrolled, hnone, AccountProxiedBalance.mk.injEq] at he
      omega
    · rw [hnone, hamounts.1, hamounts.2.1, AccountProxiedBalance.mk.injEq] at he
      omega

theorem unRegisterApplyCb_registry (hcall : tx.call = .unRegister)
    (h : unRegisterApplyCb rt bc tx s = .ok (s', ops)) : RegistryChange tx s s' := by
  obtain ⟨-, -, -, -, allRefund, rfl⟩ := unRegisterApplyCb_ok h
  refine .dismisses hcall ?_ ?_
  · have hcancel (t : StateDB) : (t.cancelCandidate tx.sender allRefund).registrations =
        Function.update t.registrations tx.sender (false, []) :=
      setAccount_registrations t tx.sender fun _ => rfl
    show (StateDB.cancelCandidate _ tx.sender allRefund).registrations = _
    rw [hcancel, forEachProxied_frame _ registrations rt.trieOrder tx.sender fun t u apb =>
      registrations_frame.releaseUser t tx.sender u apb, registrations_frame.getOrNewStateObject]
  · have hcancel (t : StateDB) :
      (t.cancelCandidate tx.sender allRefund).candidateSet = t.candidateSet :=
      setAccount_candidateSet t tx.sender _
    have hloop := forEachProxied_frame (s.getOrNewStateObject tx.sender) (fun t => t.candidateSet)
      rt.trieOrder tx.sender fun t u apb => candidateSet_frame.releaseUser t tx.sender u apb
    show ((StateDB.cancelCandidate _ tx.sender allRefund).candidateSet.load.clearByAddress
      tx.sender).load = _
    rw [hcancel, hloop, getOrNewStateObject_candidateSet]

/-- **What a callback does to the registry.** -/
theorem applyCb_registry (hs : Sound s) (h : applyCb rt bc tx s = .ok (s', ops)) :
    RegistryChange tx s s' := by
  rw [applyCb] at h
  have hstays {call : StakingCall} (hcall : tx.call = call) (hne : call ≠ .unRegister) :
      tx.call ≠ .unRegister := hcall ▸ hne
  cases hcall : tx.call with
  | register =>
    rw [hcall] at h
    exact registerApplyCb_registry hs (hstays hcall (by simp)) h
  | unRegister =>
    rw [hcall] at h
    exact unRegisterApplyCb_registry hcall h
  | delegate =>
    rw [hcall] at h
    obtain ⟨-, -, ⟨rfl, -⟩ | h⟩ := delegateApplyCb_ok h
    · refine .keeps (hstays hcall (by simp)) ?_ ?_
      · rw [registrations_frame.getOrNewStateObject, registrations_frame.delegated]
      · rw [getOrNewStateObject_candidateSet, candidateSet_frame.delegated]
    · refine .keeps (hstays hcall (by simp)) ?_ ?_
      · rw [registrations_frame.updateNextEpochValidatorVoteSet _ h,
          registrations_frame.getOrNewStateObject, registrations_frame.delegated]
      · rw [candidateSet_frame.updateNextEpochValidatorVoteSet _ h,
          getOrNewStateObject_candidateSet, candidateSet_frame.delegated]
  | unDelegate =>
    rw [hcall] at h
    obtain ⟨-, -, -, -, rfl⟩ := unDelegateApplyCb_ok h
    split
    · exact .keeps (hstays hcall (by simp)) (registrations_frame.released ..)
        (candidateSet_frame.released ..)
    · exact .keeps (hstays hcall (by simp))
        ((registrations_frame.released ..).trans (registrations_frame.announced ..))
        ((candidateSet_frame.released ..).trans (candidateSet_frame.announced ..))
  | withdrawReward =>
    rw [hcall] at h
    obtain ⟨-, -, rfl⟩ := withdrawRewardApplyCb_ok h
    exact .keeps (hstays hcall (by simp)) ((registrations_frame.add ..).trans
        (registrations_frame.subRewardBalanceByDelegateAddress ..))
      ((candidateSet_frame.add ..).trans (candidateSet_frame.subRewardBalanceByDelegateAddress ..))
  | setCommission =>
    rw [hcall] at h
    obtain ⟨-, -, rfl⟩ := setCommissionApplyCb_ok h
    exact .keeps (hstays hcall (by simp)) (setAccount_part s tx.sender fun _ => rfl)
      (setAccount_candidateSet s tx.sender _)
  | unBanned =>
    rw [hcall] at h
    obtain ⟨-, -, -, rfl⟩ := unBannedApplyCb_ok h
    refine .keeps (hstays hcall (by simp)) ?_ ?_
    · rw [clearBannedSetByAddress, registrations_frame.bannedSet, registrations_frame.setBanned,
        registrations_frame.getOrNewStateObject, registrations_frame.getOrNewStateObject]
    · show (StateDB.setBanned _ tx.sender false).candidateSet = _
      rw [setBanned, setAccount_candidateSet, getOrNewStateObject_candidateSet,
        getOrNewStateObject_candidateSet]

end Callbacks

/-! ## Writing -/

/-- An account with a key is a candidate, and has sent a transaction. -/
def Keyed (s : StateDB) : Prop :=
  ∀ a, (s.accounts a).pubkey ≠ [] → s.isCandidate a = true ∧ s.nonces a ≠ 0

variable {s s' : StateDB}

theorem deletes_eq_false_of_nonce {a : Address} (h : s.nonces a ≠ 0) : s.deletes a = false := by
  by_contra hdel
  have hempty := empty_of_deletes hdel
  simp only [empty, Bool.and_eq_true, beq_iff_eq] at hempty
  exact h hempty.1.1.1.1.1.1.1.1.1.1

theorem Unwritten.deletes_eq_false (h : Unwritten s) {a u : Address}
    (hentry : s.getAccountProxiedBalance a u ≠ ⟨0, 0, 0⟩) : s.deletes a = false := by
  by_contra hdel
  exact hentry (h.entry_eq_zero_of_empty (empty_of_deletes hdel) u)

/-- The registry has been written, and no account with a key was deleted. -/
structure WritesRegistry (s s' : StateDB) : Prop where
  pubkey : ∀ a, (s'.accounts a).pubkey = (s.accounts a).pubkey
  candidate : ∀ a, (s.accounts a).pubkey ≠ [] → s'.isCandidate a = s.isCandidate a
  candidate_of : ∀ a, s'.isCandidate a = true → s.isCandidate a = true
  candidateSet : s'.candidateSet = s.candidateSet.write

theorem finalised_nonces (s : StateDB) : s.finalised.nonces = s.nonces := by
  funext a
  show (if s.deletes a then Account.absent else s.accounts a).nonce = (s.accounts a).nonce
  split
  · rename_i hdel
    have hempty := empty_of_deletes (Bool.eq_false_iff.not.2 (not_not.2 hdel))
    simp only [empty, Bool.and_eq_true, beq_iff_eq] at hempty
    exact hempty.1.1.1.1.1.1.1.1.1.1.symm
  · rfl

theorem finalised_writesRegistry (h : ∀ a, (s.accounts a).pubkey ≠ [] → s.deletes a = false) :
    WritesRegistry s s.finalised where
  pubkey := by
    intro a
    show (if s.deletes a then Account.absent else s.accounts a).pubkey = _
    by_cases hkey : (s.accounts a).pubkey = []
    · split
      · exact hkey.symm
      · rfl
    · rw [h a hkey]
      rfl
  candidate := by
    intro a hkey
    show (if s.deletes a then Account.absent else s.accounts a).candidate = _
    rw [h a hkey]
    rfl
  candidate_of := by
    intro a hcand
    by_contra hne
    have hfalse := finalised_isCandidate s (Bool.eq_false_iff.2 hne)
    rw [hfalse] at hcand
    cases hcand
  candidateSet := rfl

/-! ## Transactions -/

theorem registrations_pubkey (h : s'.registrations = s.registrations) (a : Address) :
    (s'.accounts a).pubkey = (s.accounts a).pubkey :=
  congrArg Prod.snd (congrFun h a)

theorem registrations_isCandidate (h : s'.registrations = s.registrations) (a : Address) :
    s'.isCandidate a = s.isCandidate a :=
  congrArg Prod.fst (congrFun h a)

section Transactions

variable {rt : Runtime} {bc : ChainView} {tx : StakingTx} {t : StateDB}
  {ops : List UpdateNextEpochOp}

/-- A key that is there after a callback was there before, or is that of a new candidate. -/
theorem RegistryChange.pubkey_cases (h : RegistryChange tx s t) {a : Address}
    (hkey : (t.accounts a).pubkey ≠ []) :
    t.registrations a = s.registrations a ∨
      (a = tx.sender ∧ t.isCandidate a = true ∧ t.getAccountProxiedBalance a a ≠ ⟨0, 0, 0⟩) := by
  cases h with
  | keeps _ hreg => exact .inl (congrFun hreg a)
  | enrols _ _ _ _ hreg _ hentry =>
    by_cases ha : a = tx.sender
    · subst ha
      refine .inr ⟨rfl, ?_, hentry⟩
      have hself := congrFun hreg tx.sender
      rw [Function.update_self] at hself
      exact congrArg Prod.fst hself
    · left
      rw [hreg, Function.update_of_ne ha]
  | dismisses _ hreg =>
    by_cases ha : a = tx.sender
    · subst ha
      have hself := congrFun hreg tx.sender
      rw [Function.update_self] at hself
      exact absurd (congrArg Prod.snd hself) hkey
    · left
      rw [hreg, Function.update_of_ne ha]

/-- A callback does not take the key of an account, unless the account unregisters. -/
theorem RegistryChange.pubkey_eq (h : RegistryChange tx s t) (hkeyed : Keyed s) {a : Address}
    (hkey : (s.accounts a).pubkey ≠ []) (hstays : tx.call = .unRegister → a ≠ tx.sender) :
    (t.accounts a).pubkey = (s.accounts a).pubkey := by
  cases h with
  | keeps _ hreg => exact registrations_pubkey hreg a
  | enrols _ _ hcand _ hreg =>
    have ha : a ≠ tx.sender := by
      rintro rfl
      rw [(hkeyed _ hkey).1] at hcand
      cases hcand
    have hother := congrFun hreg a
    rw [Function.update_of_ne ha] at hother
    exact congrArg Prod.snd hother
  | dismisses hcall hreg =>
    have hother := congrFun hreg a
    rw [Function.update_of_ne (hstays hcall)] at hother
    exact congrArg Prod.snd hother

/-- The same change, seen from states with the same registry. -/
theorem RegistryChange.congr {s₀ t₀ : StateDB} (h : RegistryChange tx s₀ t₀)
    (hsreg : s₀.registrations = s.registrations) (hsset : s₀.candidateSet = s.candidateSet)
    (htreg : t.registrations = t₀.registrations) (htset : t.candidateSet = t₀.candidateSet)
    (hentry : ∀ a u, t.getAccountProxiedBalance a u = t₀.getAccountProxiedBalance a u) :
    RegistryChange tx s t := by
  cases h with
  | keeps hcall hreg hset =>
    exact .keeps hcall (htreg.trans (hreg.trans hsreg)) (htset.trans (hset.trans hsset))
  | enrols hcall key hcand hlen hreg hset hne =>
    refine .enrols hcall key ?_ hlen ?_ ?_ ?_
    · rw [← registrations_isCandidate hsreg]
      exact hcand
    · rw [htreg, hreg, hsreg]
    · rw [htset, hset, hsset]
    · rw [hentry]
      exact hne
  | dismisses hcall hreg hset =>
    refine .dismisses hcall ?_ ?_
    · rw [htreg, hreg, hsreg]
    · rw [htset, hset, hsset]

theorem RegistryChange.writes (h : RegistryChange tx s t) (hkeyed : Keyed s)
    (hnonces : t.nonces = s.nonces) (ht : Unwritten t) : WritesRegistry t t.finalised := by
  refine finalised_writesRegistry fun a hkey => ?_
  rcases h.pubkey_cases hkey with hold | ⟨rfl, -, hentry⟩
  · refine deletes_eq_false_of_nonce ?_
    rw [hnonces]
    exact (hkeyed a fun hnil => hkey ((congrArg Prod.snd hold).trans hnil)).2
  · exact ht.deletes_eq_false hentry

theorem WritesRegistry.setNonce (h : WritesRegistry t s') (a : Address) (n : Nat) :
    WritesRegistry t (s'.setNonce a n) := by
  have hreg : (s'.setNonce a n).registrations = s'.registrations :=
    setAccount_part s' a fun _ => rfl
  refine ⟨fun b => ?_, fun b hkey => ?_, fun b hcand => ?_, ?_⟩
  · rw [registrations_pubkey hreg, h.pubkey]
  · rw [registrations_isCandidate hreg, h.candidate b hkey]
  · rw [registrations_isCandidate hreg] at hcand
    exact h.candidate_of b hcand
  · rw [← h.candidateSet]
    exact setAccount_candidateSet s' a _

/-- After a transaction, which has raised the nonce of its sender, an account with a key is a
candidate that has sent a transaction. -/
theorem RegistryChange.keyed (h : RegistryChange tx s t) (hkeyed : Keyed s)
    (hw : WritesRegistry t s')
    (hself : s'.nonces tx.sender ≠ 0) (hother : ∀ a, a ≠ tx.sender → s'.nonces a = s.nonces a) :
    Keyed s' := by
  intro a hkey
  rw [hw.pubkey] at hkey
  rw [hw.candidate a hkey]
  rcases h.pubkey_cases hkey with hold | ⟨rfl, hcand, -⟩
  · obtain ⟨hcand, hnonce⟩ := hkeyed a fun hnil => hkey ((congrArg Prod.snd hold).trans hnil)
    refine ⟨?_, ?_⟩
    · rw [show t.isCandidate a = s.isCandidate a from congrArg Prod.fst hold]
      exact hcand
    by_cases ha : a = tx.sender
    · rw [ha]
      exact hself
    · rw [hother a ha]
      exact hnonce
  · exact ⟨hcand, hself⟩

/-- **A transaction changes the registry as its callback does**, and then writes it. -/
theorem applyTransactionEx_registry (hs : Sound s) (hkeyed : Keyed s)
    (h : applyTransactionEx rt bc tx s = .ok (s', ops)) :
    (∃ t, RegistryChange tx s t ∧ WritesRegistry t s') ∧ Keyed s' ∧
      ∀ op ∈ ops, op.pubKey = (s'.accounts op.source).pubkey ∧ op.pubKey ≠ [] := by
  obtain ⟨-, -, t₀, hcb, hfinish⟩ := applyTransactionEx_ok h
  obtain ⟨-, _, hfin, rfl⟩ := finishTransaction_ok hfinish
  have hs₀ : Sound (s.subBalance tx.sender (tx.gasLimit * tx.gasPrice : Nat)) :=
    hs.still (sub_still s rfl _)
  generalize (((tx.gasLimit - requiredGas) * tx.gasPrice : Nat) : Int) = refund at hfin
  obtain ⟨rfl, -⟩ := finalise_ok hfin
  have hstill : Still t₀ (t₀.addBalance tx.sender refund) := add_still t₀ rfl _
  have hreg : (t₀.addBalance tx.sender refund).registrations = t₀.registrations :=
    registrations_frame.add ..
  have hchange : RegistryChange tx s (t₀.addBalance tx.sender refund) :=
    (applyCb_registry hs₀ hcb).congr (registrations_frame.sub ..) (candidateSet_frame.sub ..) hreg
      (candidateSet_frame.add ..) hstill.entry
  have hnonces : (t₀.addBalance tx.sender refund).nonces = s.nonces := by
    rw [addBalance, nonces_frame.add, applyCb_nonces hcb, subBalance, nonces_frame.sub]
  have hwrites := (hchange.writes hkeyed hnonces ((hs₀.applyCb hcb).still hstill)).setNonce
    tx.sender (((t₀.addBalance tx.sender refund).finalised.accounts tx.sender).nonce + 1)
  refine ⟨⟨_, hchange, hwrites⟩, hchange.keyed hkeyed hwrites ?_ fun a ha => ?_, fun op hop => ?_⟩
  · rw [setNonce_nonces, Function.update_self]
    exact Nat.add_one_ne_zero _
  · rw [setNonce_nonces, Function.update_of_ne ha, finalised_nonces, hnonces]
  obtain ⟨hkey, hlen⟩ := applyCb_ops hcb hop
  rw [hwrites.pubkey, registrations_pubkey hreg]
  refine ⟨hkey, fun hnil => ?_⟩
  rw [hnil] at hlen
  cases hlen

end Transactions

/-! ## Blocks -/

theorem Keyed.congr (h : Keyed s) (hreg : s'.registrations = s.registrations)
    (hnonces : s'.nonces = s.nonces) : Keyed s' := by
  intro a hkey
  rw [registrations_pubkey hreg] at hkey
  rw [registrations_isCandidate hreg, hnonces]
  exact h a hkey

/-- What `Commit` does to the registry. -/
theorem Keyed.commit (h : Keyed s) (hcommit : s.commit = .ok s') :
    Keyed s' ∧ ∃ t, WritesRegistry s t ∧ s'.registrations = t.registrations ∧
      s'.candidateSet = t.candidateSet.reload := by
  obtain ⟨t, hfin, rfl⟩ := commit_ok hcommit
  obtain ⟨rfl, -⟩ := finalise_ok hfin
  have hwrites := finalised_writesRegistry fun a hkey => deletes_eq_false_of_nonce (h a hkey).2
  refine ⟨fun a hkey => ?_, s.finalised, hwrites, rfl, rfl⟩
  have hkey' : (s.accounts a).pubkey ≠ [] := by
    rw [← hwrites.pubkey]
    exact hkey
  obtain ⟨hcand, hnonce⟩ := h a hkey'
  refine ⟨(hwrites.candidate a hkey').trans hcand, ?_⟩
  show s.finalised.nonces a ≠ 0
  rw [finalised_nonces]
  exact hnonce

end StateDB

/-! ## The genesis state -/

namespace StateDB

/-- A candidate of the genesis file is registered without a key. -/
theorem allocate_registrations (s : StateDB) (entry : Address × GenesisAccount) :
    (s.allocate entry).registrations =
      if entry.2.candidate then Function.update s.registrations entry.1 (true, [])
      else s.registrations := by
  have hamounts : (s.allocateAmounts entry.1 entry.2).registrations = s.registrations := by
    funext a
    exact Prod.ext ((allocateAmounts_posts s entry).isCandidate a)
      ((allocateAmounts_posts s entry).pubkey a)
  have hlast (t : StateDB) : (t.setAccount entry.1 fun acc =>
      { acc with hasCode := entry.2.hasCode, nonce := entry.2.nonce }).registrations =
      t.registrations := setAccount_part t entry.1 fun _ => rfl
  rw [allocate, hlast]
  split
  · rw [← hamounts]
    exact setAccount_registrations _ entry.1 fun _ => rfl
  · exact hamounts

theorem allocated_pubkey (alloc : GenesisAlloc) (s : StateDB) (h : ∀ a, (s.accounts a).pubkey = [])
    (a : Address) : ((alloc.foldl allocate s).accounts a).pubkey = [] := by
  induction alloc generalizing s with
  | nil => exact h a
  | cons entry _ ih =>
    refine ih _ fun b => ?_
    have hreg := congrFun (allocate_registrations s entry) b
    refine (congrArg Prod.snd hreg).trans ?_
    split
    · by_cases hb : b = entry.1
      · rw [hb, Function.update_self]
      · rw [Function.update_of_ne hb]
        exact h b
    · exact h b

end StateDB

/-- No account has a key at first. -/
theorem GenesisAlloc.toState_pubkey (alloc : GenesisAlloc) (a : Address) :
    (alloc.toState.accounts a).pubkey = [] :=
  StateDB.allocated_pubkey alloc .new (fun _ => rfl) a

namespace Chain

variable {checkConsensusPubKey : Address → Bytes → Bytes → Bool} {rt : Runtime} {c c' : Chain}

theorem genesis_keyed (alloc : GenesisAlloc) (epoch : Epoch)
    (voteSet : Option EpochValidatorVoteSet) : (genesis alloc epoch voteSet).db.Keyed :=
  fun a hkey => absurd (GenesisAlloc.toState_pubkey alloc a) hkey

/-- What the moves other than transactions do to the registrations. -/
theorem DbStep.registry {a : Action} (hkeyed : c.db.Keyed)
    (h : DbStep checkConsensusPubKey rt c c' a) (ha : ∀ tx, a ≠ .tx tx) : c'.db.Keyed ∧
      ∀ b, (c'.db.accounts b).pubkey = (c.db.accounts b).pubkey := by
  have hkept (hreg : c'.db.registrations = c.db.registrations)
      (hnonces : c'.db.nonces = c.db.nonces) :
      c'.db.Keyed ∧ ∀ b, (c'.db.accounts b).pubkey = (c.db.accounts b).pubkey :=
    ⟨hkeyed.congr hreg hnonces, StateDB.registrations_pubkey hreg⟩
  cases h with
  | tx tx => exact absurd rfl (ha tx)
  | reward _ _ _ _ _ h =>
    rw [h] at hkept ⊢
    exact hkept (StateDB.registrations_frame.addRewardBalanceByDelegateAddress ..)
      (StateDB.nonces_frame.addRewardBalanceByDelegateAddress ..)
  | nextEpoch _ _ h =>
    rw [h]
    exact ⟨hkeyed, fun _ => rfl⟩
  | stay _ _ _ h =>
    exact hkept (StateDB.registrations_frame.updateBannedState _ h)
      (StateDB.nonces_frame.updateBannedState _ h)
  | enter _ _ _ _ _ _ hban h =>
    refine hkept ?_ ?_
    · rw [h, StateDB.registrations_frame.enterNewEpoch,
        StateDB.registrations_frame.updateBannedState _ hban]
    · rw [h, StateDB.nonces_frame.enterNewEpoch, StateDB.nonces_frame.updateBannedState _ hban]
  | write _ _ _ h =>
    obtain ⟨hkeyed', _, hwrites, hreg, -⟩ := hkeyed.commit h
    refine ⟨hkeyed', fun b => ?_⟩
    rw [StateDB.registrations_pubkey hreg, hwrites.pubkey]

end Chain

end NeatPoS
