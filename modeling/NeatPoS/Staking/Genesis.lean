import NeatPoS.Core.Genesis
import NeatPoS.Staking.Standing

/-!
# The genesis state is sound

The genesis file enters balances and deposits, and each deposit with the total it belongs to, so
that the state it makes is sound, whatever is in the file.  The exception is the `DelegateBalance`
of the users, which the file gives on its own; `weigh_delegate_toState` says how far it is off.
-/

set_option autoImplicit false

namespace NeatPoS

open DFinsupp Ledger

/-! ## The genesis state is sound -/

namespace StateDB

/-- What is posted to a new state: deposits and balances, in agreement with the totals of the
candidates. -/
structure Fresh (Δ : Posting) : Prop where
  law : ∀ l : Law, l.isDelegate = false → weigh l.weight Δ = 0
  nonneg : ∀ k, 0 ≤ Δ k
  proxied : ∀ c u, Δ (.proxied c u) = 0
  pending : ∀ c u, Δ (.pendingRefund c u) = 0

namespace Fresh

variable {Δ Δ' : Posting}

theorem zero : Fresh 0 :=
  ⟨fun _ _ => map_zero _, fun _ => le_refl 0, fun _ _ => rfl, fun _ _ => rfl⟩

theorem add (h : Fresh Δ) (h' : Fresh Δ') : Fresh (Δ + Δ') where
  law := by
    intro l hl
    rw [map_add, h.law l hl, h'.law l hl, add_zero]
  nonneg := fun k => Int.add_nonneg (h.nonneg k) (h'.nonneg k)
  proxied := by
    intro c u
    rw [DFinsupp.add_apply, h.proxied, h'.proxied, add_zero]
  pending := by
    intro c u
    rw [DFinsupp.add_apply, h.pending, h'.pending, add_zero]

theorem sum {l : List Posting} (h : ∀ Δ ∈ l, Fresh Δ) : Fresh l.sum := by
  induction l with
  | nil => exact zero
  | cons Δ _ ih =>
    rw [List.sum_cons]
    exact (h Δ List.mem_cons_self).add (ih fun Δ' h' => h Δ' (List.mem_cons_of_mem Δ h'))

theorem depositPosting (c u : Address) (x : Nat) : Fresh (StateDB.depositPosting c u x) where
  law := by
    intro l hl
    cases l <;> simp [StateDB.depositPosting, Law.weight, Law.total, Law.sums, Law.isDelegate] at hl ⊢
  nonneg := by
    intro k
    simp only [StateDB.depositPosting, DFinsupp.add_apply, single_apply]
    split <;> split <;> simp
  proxied := by
    intro c' u'
    simp [StateDB.depositPosting]
  pending := by
    intro c' u'
    simp [StateDB.depositPosting]

/-- A balance. -/
theorem single {k : Slot} (hk : k.own = true ∨ ∃ a, k = .delegateBalance a) (x : Nat) :
    Fresh (DFinsupp.single k (x : Int)) where
  law := by
    intro l hl
    rcases hk with hk | ⟨a, rfl⟩
    · cases k <;> simp only [Slot.own, Bool.false_eq_true] at hk <;> cases l <;>
        simp [Law.weight, Law.total, Law.sums]
    · cases l <;> simp [Law.weight, Law.total, Law.sums, Law.isDelegate] at hl ⊢
  nonneg := by
    intro k'
    rw [single_apply]
    split <;> simp
  proxied := by
    intro c u
    rcases hk with hk | ⟨a, rfl⟩
    · cases k <;> simp [Slot.own] at hk ⊢
    · simp
  pending := by
    intro c u
    rcases hk with hk | ⟨a, rfl⟩
    · cases k <;> simp [Slot.own] at hk ⊢
    · simp

end Fresh

theorem allocation_fresh (entry : Address × GenesisAccount) : Fresh (allocation entry) := by
  refine (((Fresh.single (.inl rfl) _).add (Fresh.single (.inl rfl) _)).add
    (Fresh.single (.inr ⟨_, rfl⟩) _)).add (Fresh.sum fun Δ hΔ => ?_)
  obtain ⟨_, -, rfl⟩ := List.mem_map.1 hΔ
  exact Fresh.depositPosting _ _ _

end StateDB

namespace GenesisAlloc

open StateDB

variable (alloc : GenesisAlloc)

theorem allocated_fresh : Fresh (alloc.foldl allocate .new).amounts := by
  rw [allocated_amounts]
  refine Fresh.zero.add (Fresh.sum fun Δ hΔ => ?_)
  obtain ⟨entry, -, rfl⟩ := List.mem_map.1 hΔ
  exact allocation_fresh entry

/-- The entries of the genesis state are deposits. -/
theorem allocated_open (c : Address) : Open (alloc.foldl allocate .new) c := by
  intro u
  have hfresh := allocated_fresh alloc
  refine ⟨(hfresh.proxied c u).ge, (hfresh.pending c u).ge, ?_⟩
  exact (hfresh.pending c u).trans_le (hfresh.nonneg _)

theorem written_sound : Sound (alloc.foldl allocate .new).written := by
  have hfresh := allocated_fresh alloc
  have htouches := allocated_touches alloc .new
  have hopen := allocated_open alloc
  have hset : (alloc.foldl allocate .new).written.delegateRefundSet = ⟨∅, none, false⟩ := by
    show (alloc.foldl allocate .new).delegateRefundSet.write = _
    rw [(allocated_sets alloc .new).1]
    rfl
  generalize alloc.foldl allocate .new = s at *
  refine ⟨⟨hfresh.law, fun c u hcu => ?_, ?_, fun a d => hfresh.nonneg _⟩, fun c => .inl (hopen c),
    fun c u => ?_⟩
  · have hzero : s.written.amounts (.pendingRefund c u) = 0 := hfresh.pending c u
    omega
  · rw [hset]
    exact ⟨fun h => Bool.noConfusion h, fun _ => .inl rfl⟩
  show u ∈ (if c ∈ s.dirty then s.trieUsers c else s.proxiedTrie c) ↔
    s.getAccountProxiedBalance c u ≠ ⟨0, 0, 0⟩
  by_cases hc : c ∈ s.dirty
  · have hencodable : (s.getAccountProxiedBalance c u).encodable = true := by
      rw [AccountProxiedBalance.encodable_iff]
      exact ⟨(hopen c u).proxied, (hopen c u).pending.trans (hopen c u).covered, (hopen c u).pending⟩
    rw [if_pos hc, mem_trieUsers, and_iff_left hencodable]
  -- nothing has been posted to an account that is not dirty
  · have hzero (k : Slot) (hk : k.owner = c) : s.amounts k = 0 := by
      by_contra hne
      exact hc (hk ▸ htouches.dirty_of_ne k hne)
    rw [if_neg hc, htouches.proxiedTrie, getAccountProxiedBalance, hzero _ rfl, hzero _ rfl,
      hzero _ rfl]
    simp [StateDB.new]

theorem toState_sound : Sound alloc.toState := by
  refine (written_sound alloc).reload ?_
  show (alloc.foldl allocate .new).delegateRefundSet.write.reload.addresses =
    (alloc.foldl allocate .new).delegateRefundSet.write.addresses
  rw [(allocated_sets alloc .new).1]
  rfl

theorem toState_open (c : Address) : Open alloc.toState c := by
  refine (allocated_open alloc c).of_entry fun u => ?_
  rw [toState, getAccountProxiedBalance, (written_sound alloc).reload_amounts]
  rfl

theorem toState_amounts : alloc.toState.amounts = (alloc.map allocation).sum := by
  rw [toState, (written_sound alloc).reload_amounts]
  show (alloc.foldl allocate .new).amounts = _
  rw [allocated_amounts]
  exact zero_add _

theorem weigh_details (u addr : Address) (l : List (Address × Nat)) :
    weigh (Law.delegate u).weight (l.map fun d => depositPosting addr d.1 (d.2 : Int)).sum =
      -(((l.filter (·.1 = u)).map (·.2)).sum : Nat) := by
  induction l with
  | nil => simp
  | cons d _ ih =>
    rw [List.map_cons, List.sum_cons, map_add, ih]
    by_cases hd : d.1 = u
    · simp [hd, depositPosting, Law.weight, Law.total, Law.sums]
      omega
    · simp [hd, depositPosting, Law.weight, Law.total, Law.sums]

theorem weigh_allocation (u : Address) (entry : Address × GenesisAccount) :
    weigh (Law.delegate u).weight (allocation entry) =
      (if entry.1 = u then entry.2.delegateBalance else 0 : Nat) -
        (((entry.2.depositProxiedDetail.filter (·.1 = u)).map (·.2)).sum : Nat) := by
  rw [allocation, map_add, weigh_details]
  by_cases h : entry.1 = u
  · simp [h, Law.weight, Law.total, Law.sums, Int.sub_eq_add_neg]
  · simp [h, Law.weight, Law.total, Law.sums]

/-- How far the `DelegateBalance` of a user is off in the genesis file. -/
theorem weigh_delegate_toState (u : Address) :
    weigh (Law.delegate u).weight alloc.toState.amounts =
      (((alloc.filter (·.1 = u)).map (·.2.delegateBalance)).sum : Nat) -
        ((((alloc.flatMap (·.2.depositProxiedDetail)).filter (·.1 = u)).map (·.2)).sum : Nat) := by
  rw [toState_amounts]
  induction alloc with
  | nil => simp
  | cons entry _ ih =>
    rw [List.map_cons, List.sum_cons, map_add, ih, weigh_allocation]
    by_cases h : entry.1 = u
    · simp [h]
      omega
    · simp [h]
      omega

theorem delegatesMatch_iff (u : Address) :
    alloc.DelegatesMatch u ↔ weigh (Law.delegate u).weight alloc.toState.amounts = 0 := by
  rw [weigh_delegate_toState, DelegatesMatch]
  omega

end GenesisAlloc

end NeatPoS
