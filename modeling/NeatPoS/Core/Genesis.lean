import NeatPoS.Core.Postings

/-!
# The genesis state

`Genesis.ToBlock` (`core/genesis.go`), as far as it concerns the state.  The accounts of the genesis
file are entered one by one with the functions of the state database, and the state is written
without deleting empty accounts.

The file gives the `DelegateBalance` of a user and the deposits of a candidate apart from each
other, and `ToBlock` takes both as they are.
-/

set_option autoImplicit false

namespace NeatPoS

open DFinsupp

/-- `GenesisAccount`, less code and storage.  The amounts that are left out of the file count as
zero. -/
structure GenesisAccount where
  balance : Nat
  nonce : Nat
  hasCode : Bool
  /-- The deposit of a validator. -/
  amount : Nat
  delegateBalance : Nat
  /-- A map, as the list of its entries. -/
  depositProxiedDetail : List (Address × Nat)
  candidate : Bool
  commission : Nat
deriving DecidableEq, Repr

/-- `GenesisAlloc`, as the list of its entries. -/
abbrev GenesisAlloc := List (Address × GenesisAccount)

namespace StateDB

/-- `state.New` on the empty root. -/
def new : StateDB where
  amounts := 0
  accounts := fun _ => .absent
  proxiedTrie := fun _ => ∅
  dirty := ∅
  delegateRefundSet := ⟨∅, none, false⟩
  candidateSet := ⟨∅, none, false⟩
  bannedSet := ⟨∅, none, false⟩

/-- `AddDepositBalance`. -/
def addDepositBalance (s : StateDB) (addr : Address) (amount : Int) : StateDB :=
  s.add (.depositBalance addr) amount

/-- The deposits of an account in the genesis file. -/
def allocateDetail (addr : Address) (s : StateDB) (detail : Address × Nat) : StateDB :=
  s.addDepositProxiedBalanceByUser addr detail.1 detail.2

/-- The amounts of an account in the genesis file. -/
def allocateAmounts (s : StateDB) (addr : Address) (account : GenesisAccount) : StateDB :=
  account.depositProxiedDetail.foldl (allocateDetail addr)
    (((s.addBalance addr account.balance).addDepositBalance addr account.amount).addDelegateBalance addr
      account.delegateBalance)

/-- One account of the genesis file.  A candidate gets an empty key, and is not put in the set. -/
def allocate (s : StateDB) (entry : Address × GenesisAccount) : StateDB :=
  let s := s.allocateAmounts entry.1 entry.2
  let s := if entry.2.candidate then s.applyForCandidate entry.1 [] entry.2.commission else s
  s.setAccount entry.1 fun acc => { acc with hasCode := entry.2.hasCode, nonce := entry.2.nonce }

/-- `Finalise(false)`, where no account is deleted. -/
def written (s : StateDB) : StateDB :=
  { s with
    proxiedTrie := fun a => if a ∈ s.dirty then s.trieUsers a else s.proxiedTrie a
    delegateRefundSet := s.delegateRefundSet.write
    candidateSet := s.candidateSet.write
    bannedSet := s.bannedSet.write }

end StateDB

/-- The state that `ToBlock` commits, as the first block finds it. -/
def GenesisAlloc.toState (alloc : GenesisAlloc) : StateDB :=
  (alloc.foldl StateDB.allocate .new).written.reload

/-- The genesis file gives each user the `DelegateBalance` that its deposits add up to. -/
def GenesisAlloc.DelegatesMatch (alloc : GenesisAlloc) (user : Address) : Prop :=
  ((alloc.filter (·.1 = user)).map (·.2.delegateBalance)).sum =
    (((alloc.flatMap (·.2.depositProxiedDetail)).filter (·.1 = user)).map (·.2)).sum

/-! ## What is posted -/

namespace StateDB

/-- What an account of the genesis file posts. -/
def allocation (entry : Address × GenesisAccount) : Posting :=
  single (.balance entry.1) (entry.2.balance : Int) +
    single (.depositBalance entry.1) (entry.2.amount : Int) +
    single (.delegateBalance entry.1) (entry.2.delegateBalance : Int) +
    (entry.2.depositProxiedDetail.map fun d => depositPosting entry.1 d.1 (d.2 : Int)).sum

theorem allocateDetails_posts (s : StateDB) (addr : Address) (l : List (Address × Nat)) :
    Posts s (l.foldl (allocateDetail addr) s)
      (l.map fun d => depositPosting addr d.1 (d.2 : Int)).sum := by
  induction l generalizing s with
  | nil => exact Posts.refl s
  | cons d _ ih =>
    rw [List.foldl_cons, List.map_cons, List.sum_cons]
    exact (addDepositProxiedBalanceByUser_posts s addr d.1 d.2).trans (ih _)

theorem allocateAmounts_posts (s : StateDB) (entry : Address × GenesisAccount) :
    Posts s (s.allocateAmounts entry.1 entry.2) (allocation entry) :=
  (((add_posts s (.balance entry.1) entry.2.balance).trans
    (add_posts _ (.depositBalance entry.1) entry.2.amount)).trans
    (add_posts _ (.delegateBalance entry.1) entry.2.delegateBalance)).trans
    (allocateDetails_posts _ entry.1 entry.2.depositProxiedDetail)

theorem allocate_amounts (s : StateDB) (entry : Address × GenesisAccount) :
    (s.allocate entry).amounts = s.amounts + allocation entry := by
  rw [← (allocateAmounts_posts s entry).amounts, allocate, setAccount_amounts]
  split
  · exact setAccount_amounts _ entry.1 _
  · rfl

theorem allocate_touches (s : StateDB) (entry : Address × GenesisAccount) :
    Touches s (s.allocate entry) := by
  rw [allocate]
  refine (Touches.of_posts (allocateAmounts_posts s entry)).trans
    (Touches.trans ?_ (setAccount_touches _ entry.1 _))
  split
  · exact setAccount_touches _ entry.1 _
  · exact Touches.refl _

/-- What the accounts of the genesis file post. -/
theorem allocated_amounts (alloc : GenesisAlloc) (s : StateDB) :
    (alloc.foldl allocate s).amounts = s.amounts + (alloc.map allocation).sum := by
  induction alloc generalizing s with
  | nil => simp
  | cons _ _ ih =>
    rw [List.foldl_cons, ih, allocate_amounts, List.map_cons, List.sum_cons, add_assoc]

theorem allocated_touches (alloc : GenesisAlloc) (s : StateDB) :
    Touches s (alloc.foldl allocate s) := by
  induction alloc generalizing s with
  | nil => exact Touches.refl s
  | cons entry _ ih => exact (allocate_touches s entry).trans (ih _)

/-- The sets are left empty. -/
theorem allocated_sets (alloc : GenesisAlloc) (s : StateDB) :
    (alloc.foldl allocate s).delegateRefundSet = s.delegateRefundSet ∧
      (alloc.foldl allocate s).candidateSet = s.candidateSet := by
  have hdetails (addr : Address) (l : List (Address × Nat)) (t : StateDB) :
      (l.foldl (allocateDetail addr) t).delegateRefundSet = t.delegateRefundSet ∧
        (l.foldl (allocateDetail addr) t).candidateSet = t.candidateSet := by
    induction l generalizing t with
    | nil => exact ⟨rfl, rfl⟩
    | cons _ _ ih =>
      rw [List.foldl_cons, (ih _).1, (ih _).2]
      simp [allocateDetail, addDepositProxiedBalanceByUser]
  induction alloc generalizing s with
  | nil => exact ⟨rfl, rfl⟩
  | cons _ _ ih =>
    rw [List.foldl_cons, (ih _).1, (ih _).2, allocate, setAccount_refundSet, setAccount_candidateSet]
    split
    · rw [applyForCandidate, setAccount_refundSet, setAccount_candidateSet, allocateAmounts,
        (hdetails _ _ _).1, (hdetails _ _ _).2]
      simp [addBalance, addDepositBalance, addDelegateBalance]
    · rw [allocateAmounts, (hdetails _ _ _).1, (hdetails _ _ _).2]
      simp [addBalance, addDepositBalance, addDelegateBalance]

end StateDB

end NeatPoS
