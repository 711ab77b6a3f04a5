import NeatPoS.Epoch.Loop
import NeatPoS.Staking.Specs

/-!
# What staking leaves alone

Most of what the callbacks and the epoch switch do is to move amounts from one slot to another.  An
invariant about the rest of the state, the keys of the candidates for instance or the nonces, needs
to know that all of these moves leave it alone.  This is said here once, for anything that can be
read from the state.

`Frame g` says that `g` reads nothing that a payment changes: not the amounts, not which accounts
exist and are dirty, and not the refund set.  `BanFrame g` adds what the counting of blocks and the
bans change, and `SwitchFrame g` the rest of what the epoch switch does.  Each is a list of
equations, most of which hold by `rfl` for the functions of interest; the results are that the parts
of the callbacks (`Frame.delegated`, …), the counting of blocks (`BanFrame.updateBannedState`) and
the whole switch (`SwitchFrame.enterNewEpoch`) keep the value.
-/

set_option autoImplicit false

namespace NeatPoS

namespace StateDB

/-- Payments do not change the value. -/
structure Frame {β : Type} (g : StateDB → β) : Prop where
  getOrNewStateObject : ∀ s a, g (s.getOrNewStateObject a) = g s
  markStateObjectDirty : ∀ s a, g (s.markStateObjectDirty a) = g s
  post : ∀ s k x, g (s.post k x) = g s
  delegateRefundSet : ∀ s r, g { s with delegateRefundSet := r } = g s

/-- Neither payments nor bans change the value. -/
structure BanFrame {β : Type} (g : StateDB → β) : Prop extends Frame g where
  bannedSet : ∀ s r, g { s with bannedSet := r } = g s
  setBanned : ∀ s a b, g (s.setBanned a b) = g s
  setBannedTime : ∀ s a n, g (s.setBannedTime a n) = g s
  setMinedBlocks : ∀ s a n, g (s.setMinedBlocks a n) = g s

/-- Nothing that happens when the epoch is switched changes the value. -/
structure SwitchFrame {β : Type} (g : StateDB → β) : Prop extends BanFrame g where
  clearCommission : ∀ s a, g (s.clearCommission a) = g s
  getCandidateSet : ∀ s, g s.getCandidateSet = g s
  deleteCandidate : ∀ s a, g (s.deleteCandidate a) = g s

/-- What every round keeps, a loop keeps. -/
theorem foldl_keeps {α β : Type} {g : StateDB → β} (s : StateDB) {f : StateDB → α → StateDB}
    (hf : ∀ t a, g (f t a) = g t) (l : List α) : g (l.foldl f s) = g s := by
  induction l generalizing s with
  | nil => rfl
  | cons _ _ ih => rw [List.foldl_cons, ih, hf]

namespace Frame

variable {β : Type} {g : StateDB → β} (hg : Frame g) (s : StateDB)
include hg

theorem add (k : Slot) (x : Int) : g (s.add k x) = g s := by
  rw [StateDB.add]
  split
  · split
    · rw [hg.markStateObjectDirty, hg.getOrNewStateObject]
    · rw [hg.getOrNewStateObject]
  · rw [hg.markStateObjectDirty, hg.post, hg.getOrNewStateObject]

theorem sub (k : Slot) (x : Int) : g (s.sub k x) = g s := by
  rw [StateDB.sub]
  split
  · rw [hg.getOrNewStateObject]
  · rw [hg.markStateObjectDirty, hg.post, hg.getOrNewStateObject]

theorem setEntry (k : Slot) (x : Int) : g (s.setEntry k x) = g s := by
  rw [StateDB.setEntry, hg.markStateObjectDirty, hg.post, hg.getOrNewStateObject]

variable (c u : Address) (x : Int)

theorem addProxiedBalanceByUser : g (s.addProxiedBalanceByUser c u x) = g s := by
  rw [StateDB.addProxiedBalanceByUser, hg.add, hg.setEntry]

theorem subProxiedBalanceByUser : g (s.subProxiedBalanceByUser c u x) = g s := by
  rw [StateDB.subProxiedBalanceByUser, hg.sub, hg.setEntry]

theorem addDepositProxiedBalanceByUser : g (s.addDepositProxiedBalanceByUser c u x) = g s := by
  rw [StateDB.addDepositProxiedBalanceByUser, hg.add, hg.setEntry]

theorem subDepositProxiedBalanceByUser : g (s.subDepositProxiedBalanceByUser c u x) = g s := by
  rw [StateDB.subDepositProxiedBalanceByUser, hg.sub, hg.setEntry]

theorem addPendingRefundBalanceByUser : g (s.addPendingRefundBalanceByUser c u x) = g s := by
  rw [StateDB.addPendingRefundBalanceByUser, hg.add, hg.setEntry]

theorem subPendingRefundBalanceByUser : g (s.subPendingRefundBalanceByUser c u x) = g s := by
  rw [StateDB.subPendingRefundBalanceByUser, hg.sub, hg.setEntry]

theorem addRewardBalanceByDelegateAddress (a d : Address) (x : Int) :
    g (s.addRewardBalanceByDelegateAddress a d x) = g s := by
  rw [StateDB.addRewardBalanceByDelegateAddress, hg.add, hg.setEntry]

theorem subRewardBalanceByDelegateAddress (a d : Address) (x : Int) :
    g (s.subRewardBalanceByDelegateAddress a d x) = g s := by
  rw [StateDB.subRewardBalanceByDelegateAddress, hg.sub, hg.setEntry]

/-! ### Loops -/

variable (apb : AccountProxiedBalance)

theorem moveToDeposit : g (moveToDeposit c s u apb) = g s := by
  rw [StateDB.moveToDeposit, hg.addDepositProxiedBalanceByUser, hg.subProxiedBalanceByUser]

theorem moveToProxied : g (moveToProxied c s u apb) = g s := by
  rw [StateDB.moveToProxied]
  split
  · rw [hg.addProxiedBalanceByUser, hg.subDepositProxiedBalanceByUser]
  · rfl

theorem refundUser : g (refundUser c s u apb) = g s := by
  rw [StateDB.refundUser]
  split
  · rw [addBalance, hg.add, subDelegateBalance, hg.sub, hg.subPendingRefundBalanceByUser,
      hg.subDepositProxiedBalanceByUser]
  · rfl

/-! ### Parts of the callbacks -/

theorem delegated : g (s.delegated c u x) = g s := by
  rw [StateDB.delegated, hg.addProxiedBalanceByUser, addDelegateBalance, hg.add, subBalance, hg.sub]

theorem released : g (s.released c u x) = g s := by
  rw [StateDB.released, addBalance, hg.add, subDelegateBalance, hg.sub, hg.subProxiedBalanceByUser]

theorem announced : g (s.announced c u x) = g s := by
  rw [StateDB.announced, markDelegateAddressRefund, hg.delegateRefundSet,
    hg.addPendingRefundBalanceByUser]

theorem releaseUser : g (releaseUser c s u apb) = g s := by
  rw [releaseUser_eq]
  split
  · rw [hg.announced, hg.released]
  · rw [hg.released]

theorem updateNextEpochValidatorVoteSet {rt : Runtime} {bc : ChainView} {c : Address} {s' : StateDB}
    {ops : List UpdateNextEpochOp} (h : updateNextEpochValidatorVoteSet rt bc s c = .ok (s', ops)) :
    g s' = g s := by
  obtain ⟨-, ⟨-, rfl, -⟩ | ⟨rfl, -⟩⟩ := updateNextEpochValidatorVoteSet_ok h
  · exact forEachProxied_frame s g rt.trieOrder c fun t u apb => hg.moveToDeposit t c u apb
  · rfl

end Frame

namespace BanFrame

variable {β : Type} {g : StateDB → β} (hg : BanFrame g) (s : StateDB)
include hg

theorem countMinedBlocks {bits : List Bool} {vs : List Validator} {s' : StateDB}
    (h : s.countMinedBlocks bits vs = .ok s') : g s' = g s := by
  induction bits generalizing vs s with
  | nil =>
    cases h
    rfl
  | cons b _ ih =>
    cases b with
    | false => exact ih s h
    | true =>
      cases vs with
      | nil => cases h
      | cons =>
        refine (ih _ h).trans ?_
        show g (StateDB.setMinedBlocks _ _ _) = g s
        rw [hg.setMinedBlocks, hg.getOrNewStateObject]

theorem banIfIdle (a : Address) : g (s.banIfIdle a) = g s := by
  show g (if (s.accounts a).blockTime = 0 then _ else s.getOrNewStateObject a) = g s
  split
  · rw [markAddressBanned, hg.bannedSet, hg.setBannedTime, hg.setBanned, hg.getOrNewStateObject]
  · rw [hg.getOrNewStateObject]

/-- **Counting blocks and banning keep the value.** -/
theorem updateBannedState {epoch : Epoch} {height : Nat} {commit : Option Commit} {s' : StateDB}
    (h : updateBannedState epoch height commit s = .ok s') : g s' = g s := by
  simp only [NeatPoS.updateBannedState] at h
  split at h
  · cases h
    rfl
  split at h
  · cases h
    exact foldl_keeps s (fun t a => hg.setMinedBlocks t a 0) _
  split at h
  · cases h
    exact foldl_keeps s hg.banIfIdle _
  · split at h
    · cases h
      rfl
    · exact hg.countMinedBlocks s h

end BanFrame

namespace SwitchFrame

variable {β : Type} {g : StateDB → β} (hg : SwitchFrame g) (rt : Runtime) (s : StateDB)
include hg

theorem serveBan (a : Address) : g (s.serveBan a) = g s := by
  rw [serveBan_eq]
  split
  · rw [hg.setBannedTime, hg.getOrNewStateObject]
  · rw [hg.getOrNewStateObject]

theorem dropIfBanned (a : Address) : g (s.dropIfBanned a) = g s := by
  rw [dropIfBanned_eq]
  split
  · rw [hg.serveBan, hg.deleteCandidate, hg.getOrNewStateObject]
  · rw [hg.getOrNewStateObject]

theorem refundAddress (c : Address) : g (s.refundAddress rt c) = g s := by
  have hloop : g (s.forEachProxied rt.trieOrder c (StateDB.refundUser c)) = g s :=
    forEachProxied_frame s g rt.trieOrder c fun t u apb => hg.refundUser t c u apb
  rw [StateDB.refundAddress]
  split
  · exact hloop
  · rw [hg.clearCommission, hloop]

theorem refundDelegates : g (s.refundDelegates rt) = g s := by
  rw [StateDB.refundDelegates, clearDelegateRefundSet, hg.delegateRefundSet,
    foldl_keeps _ (fun t a => hg.refundAddress rt t a), hg.delegateRefundSet]

theorem visitValidator (st : LoopState) (p : Nat) (v : Validator) :
    g (st.visitValidator p v).db = g st.db := by
  cases hd : st.db.drops v with
  | true =>
    rw [LoopState.visitValidator_of_drops p hd]
    exact hg.dropIfBanned st.db v.address
  | false =>
    rw [LoopState.visitValidator_of_not_drops p hd]
    exact hg.dropIfBanned st.db v.address

theorem visit (st : LoopState) (j : Nat) : g (st.visit j).db = g st.db := by
  rw [LoopState.visit]
  split
  · rfl
  · split
    · rfl
    · exact hg.visitValidator st _ _

theorem validatorLoop (vs : List Validator) : g (validatorLoop s vs).db = g s := by
  rw [NeatPoS.validatorLoop]
  have hloop (l : List Nat) (st : LoopState) : g (l.foldl LoopState.visit st).db = g st.db := by
    induction l generalizing st with
    | nil => rfl
    | cons _ _ ih => rw [List.foldl_cons, ih, hg.visit]
  exact hloop _ _

theorem candidateVote (st : StateDB × List EpochValidatorVote) (a : Address) :
    g (candidateVote rt st a).1 = g st.1 := by
  have hloop : g (st.1.forEachProxied rt.trieOrder a (StateDB.moveToDeposit a)) = g st.1 :=
    forEachProxied_frame st.1 g rt.trieOrder a fun t u apb => hg.moveToDeposit t a u apb
  rw [StateDB.candidateVote]
  split
  · dsimp only
    split
    · rfl
    · split
      · exact hloop
      · exact hloop
  · rfl

theorem foldl_candidateVote (l : List Address) (st : StateDB × List EpochValidatorVote) :
    g (l.foldl (StateDB.candidateVote rt) st).1 = g st.1 := by
  induction l generalizing st with
  | nil => rfl
  | cons _ _ ih => rw [List.foldl_cons, ih, hg.candidateVote]

theorem addCandidates (vs : List Validator) (votes : EpochValidatorVoteSet) :
    g (s.addCandidates rt vs votes).1 = g s := by
  rw [StateDB.addCandidates]
  split
  · rfl
  · dsimp only
    rw [hg.foldl_candidateVote, foldl_keeps _ hg.deleteCandidate, foldl_keeps _ hg.deleteCandidate,
      foldl_keeps _ hg.dropIfBanned]

theorem depositProxied (a : Address) : g (s.depositProxied rt a) = g s := by
  rw [StateDB.depositProxied]
  split
  · refine forEachProxied_frame s g rt.trieOrder a fun t u apb => ?_
    split
    · exact hg.moveToDeposit t a u apb
    · rfl
  · rfl

theorem payRefund (r : RefundValidatorAmount) : g (s.payRefund rt r) = g s := by
  have hpay (t : StateDB) (x : Int) : g ((t.subDepositBalance r.address x).addBalance r.address x) = g t := by
    rw [addBalance, hg.add, subDepositBalance, hg.sub]
  rw [StateDB.payRefund]
  split
  · exact hpay s _
  · refine (hpay _ _).trans ?_
    split
    · exact forEachProxied_frame s g rt.trieOrder r.address fun t u apb => hg.moveToProxied t r.address u apb
    · rfl

/-- **The epoch switch keeps the value.** -/
theorem enterNewEpoch (vs : ValidatorSet) (votes : Option EpochValidatorVoteSet) :
    g (enterNewEpoch rt vs votes s).1 = g s := by
  rw [NeatPoS.enterNewEpoch]
  show g (List.foldl (StateDB.payRefund rt) _ _) = g s
  rw [foldl_keeps _ fun t r => hg.payRefund rt t r, foldl_keeps _ fun t a => hg.depositProxied rt t a,
    hg.addCandidates, hg.validatorLoop, hg.getCandidateSet, hg.refundDelegates]

end SwitchFrame

/-! ## Parts of the accounts -/

/-- What a function reads of each account. -/
def part {β : Type} (f : Account → β) (s : StateDB) (a : Address) : β := f (s.accounts a)

section Part

variable {β : Type} {f : Account → β}

theorem setAccount_part (s : StateDB) (a : Address) {φ : Account → Account}
    (hφ : ∀ acc, f (φ { acc with live := true }) = f acc) :
    part f (s.setAccount a φ) = part f s := by
  funext b
  rw [part, setAccount_accounts]
  split
  · exact hφ _
  · rfl

theorem part_frame (hlive : ∀ acc, f { acc with live := true } = f acc) : Frame (part f) where
  getOrNewStateObject := by
    intro s a
    funext b
    rw [part, getOrNewStateObject_accounts]
    split
    · exact hlive _
    · rfl
  markStateObjectDirty := fun _ _ => rfl
  post := fun _ _ _ => rfl
  delegateRefundSet := fun _ _ => rfl

end Part

/-! ## Nonces -/

/-- The nonces of all accounts. -/
def nonces (s : StateDB) (a : Address) : Nat := (s.accounts a).nonce

theorem setNonce_nonces (s : StateDB) (a : Address) (n : Nat) :
    (s.setNonce a n).nonces = Function.update s.nonces a n := by
  funext b
  rw [nonces, setNonce, setAccount_accounts]
  by_cases hb : b = a
  · rw [if_pos hb, hb, Function.update_self]
  · rw [if_neg hb, Function.update_of_ne hb, nonces]

theorem nonces_frame : SwitchFrame nonces where
  toFrame := part_frame (f := Account.nonce) fun _ => rfl
  bannedSet := fun _ _ => rfl
  setBanned := fun s a _ => setAccount_part (f := Account.nonce) s a fun _ => rfl
  setBannedTime := fun s a _ => setAccount_part (f := Account.nonce) s a fun _ => rfl
  setMinedBlocks := fun s a _ => setAccount_part (f := Account.nonce) s a fun _ => rfl
  clearCommission := fun s a => setAccount_part (f := Account.nonce) s a fun _ => rfl
  getCandidateSet := fun _ => rfl
  deleteCandidate := fun _ _ => rfl

section Nonces

variable {rt : Runtime} {bc : ChainView} {tx : StakingTx} {s s' : StateDB}
  {ops : List UpdateNextEpochOp}

theorem enrolled_nonces (s : StateDB) (a : Address) (pubkey : Bytes) (commission : Nat) (x : Int) :
    (s.enrolled a pubkey commission x).nonces = s.nonces := by
  have happly (t : StateDB) : (t.applyForCandidate a pubkey commission).nonces = t.nonces :=
    setAccount_part (f := Account.nonce) t a fun _ => rfl
  show ((s.getCandidateSet.delegated a a x).applyForCandidate a pubkey commission).nonces = s.nonces
  rw [happly, nonces_frame.delegated]
  rfl

/-- No callback changes a nonce. -/
theorem applyCb_nonces (h : applyCb rt bc tx s = .ok (s', ops)) : s'.nonces = s.nonces := by
  have hset (t : StateDB) {φ : Account → Account}
      (hφ : ∀ acc : Account, (φ { acc with live := true }).nonce = acc.nonce) :
      (t.setAccount tx.sender φ).nonces = t.nonces :=
    setAccount_part (f := Account.nonce) t tx.sender hφ
  rw [applyCb] at h
  cases hcall : tx.call with
  | register =>
    rw [hcall] at h
    obtain ⟨-, -, -, -, h⟩ := registerApplyCb_ok h
    rw [nonces_frame.updateNextEpochValidatorVoteSet _ h, enrolled_nonces]
  | unRegister =>
    rw [hcall] at h
    obtain ⟨-, -, -, -, allRefund, rfl⟩ := unRegisterApplyCb_ok h
    have hcancel (t : StateDB) : (t.cancelCandidate tx.sender allRefund).nonces = t.nonces :=
      hset t fun _ => rfl
    show (StateDB.cancelCandidate _ tx.sender allRefund).nonces = s.nonces
    rw [hcancel, forEachProxied_frame _ nonces rt.trieOrder tx.sender fun t u apb =>
      nonces_frame.releaseUser t tx.sender u apb, nonces_frame.getOrNewStateObject]
  | delegate =>
    rw [hcall] at h
    obtain ⟨-, -, ⟨rfl, -⟩ | h⟩ := delegateApplyCb_ok h
    · rw [nonces_frame.getOrNewStateObject, nonces_frame.delegated]
    · rw [nonces_frame.updateNextEpochValidatorVoteSet _ h, nonces_frame.getOrNewStateObject,
        nonces_frame.delegated]
  | unDelegate =>
    rw [hcall] at h
    obtain ⟨-, -, -, -, rfl⟩ := unDelegateApplyCb_ok h
    split
    · rw [nonces_frame.released]
    · rw [nonces_frame.released, nonces_frame.announced]
  | withdrawReward =>
    rw [hcall] at h
    obtain ⟨-, -, rfl⟩ := withdrawRewardApplyCb_ok h
    rw [addBalance, nonces_frame.add, nonces_frame.subRewardBalanceByDelegateAddress]
  | setCommission =>
    rw [hcall] at h
    obtain ⟨-, -, rfl⟩ := setCommissionApplyCb_ok h
    exact hset s fun _ => rfl
  | unBanned =>
    rw [hcall] at h
    obtain ⟨-, -, -, rfl⟩ := unBannedApplyCb_ok h
    rw [clearBannedSetByAddress, nonces_frame.bannedSet, nonces_frame.setBanned,
      nonces_frame.getOrNewStateObject, nonces_frame.getOrNewStateObject]

end Nonces

end StateDB

end NeatPoS
