import NeatPoS.Epoch.ElementWise
import NeatPoS.Epoch.Members

/-!
# Who should be in the next set

Two requirements on the set that `ShouldEnterNewEpoch` returns, and when they are met.

Nobody who is banned should be in it.  The loop over the validators removes those who are banned,
but not the one it passes over, and a vote counts whether its address is banned or not.

The set should be well formed: not empty, not too large, with distinct addresses and positive
powers.  The second and the third are always true.  The first fails when the loop removes all
validators and nobody takes their places; the last, when a vote for zero or less makes a validator,
or a candidate has nothing delegated to it.
-/

set_option autoImplicit false

namespace NeatPoS

open StateDB

section

variable {s : StateDB} {vs : List Validator} {votes : Option EpochValidatorVoteSet} {a : Address}

theorem leaves_of_isBanned {v : Validator} (h : (s.accounts v.address).isBanned = true) :
    s.leaves v = true := by
  rw [leaves, h, Bool.true_or]

/-- The loop leaves a banned validator in the set if and only if it passes over it. -/
theorem stays_iff_of_isBanned (h : (s.accounts a).isBanned = true) :
    s.Stays vs a ↔ a ∈ (passedOver s.leaves vs).map (·.address) := by
  rw [Stays, List.mem_map]
  constructor
  · rintro ⟨v, -, rfl, hpassed | hleaves⟩
    · exact ⟨v, hpassed, rfl⟩
    · rw [leaves_of_isBanned h] at hleaves
      cases hleaves
  · rintro ⟨v, hpassed, rfl⟩
    exact ⟨v, passedOver_subset hpassed, rfl, .inl hpassed⟩

/-- When a banned address gets no power. -/
theorem not_earns_iff_of_isBanned (h : (s.accounts a).isBanned = true) :
    (∀ x, ¬ s.Earns vs votes a x) ↔
      (a ∈ (passedOver s.leaves vs).map (·.address) → ∃ key, vote votes a = some (0, key)) ∧
      (a ∉ (passedOver s.leaves vs).map (·.address) → vote votes a = none) := by
  rw [← stays_iff_of_isBanned h]
  constructor
  · intro hnot
    refine ⟨fun hstays => ?_, fun hstays => ?_⟩
    · cases hvote : vote votes a with
      | none =>
        obtain ⟨_, hv, rfl⟩ := List.mem_map.1 ((stays_iff_of_isBanned h).1 hstays)
        exact absurd (.kept hv hvote) (hnot _)
      | some vote =>
        obtain ⟨x, key⟩ := vote
        by_cases hx : x = 0
        · exact ⟨key, by rw [hx]⟩
        · exact absurd (.voted hvote fun h0 => absurd h0 hx) (hnot x)
    · cases hvote : vote votes a with
      | none => rfl
      | some vote => exact absurd (.voted hvote fun _ => hstays) (hnot vote.1)
  · rintro ⟨hpassed, hothers⟩ x hearns
    cases hearns with
    | kept hv hvote =>
      obtain ⟨key, hkey⟩ := hpassed ⟨_, passedOver_subset hv, rfl, .inl hv⟩
      rw [hvote] at hkey
      cases hkey
    | staked _ _ hleaves =>
      rw [leaves_of_isBanned h] at hleaves
      cases hleaves
    | voted hvote hzero =>
      by_cases hstays : s.Stays vs a
      · obtain ⟨key, hkey⟩ := hpassed hstays
        rw [hvote] at hkey
        cases hkey
        exact hzero rfl hstays
      · rw [hothers hstays] at hvote
        cases hvote
    | elected ha =>
      rw [ha.2.1] at h
      cases h

end

/-- What holds of everybody in the next set, however the validators are sorted. -/
theorem forall_mem_cut_iff {s : StateDB} {vs : List Validator} (votes : Option EpochValidatorVoteSet)
    (hvs : (vs.map (·.address)).Nodup) (P : Address → Int → Prop) :
    (∀ rt : Runtime, ∀ v ∈ rt.cut (s.nextMembers vs votes), P v.address v.votingPower) ↔
      ∀ a x, s.Earns vs votes a x → P a x ∨ s.Outranked vs votes a := by
  constructor
  · intro h a x hearns
    obtain ⟨v, hv, rfl, rfl⟩ := (exists_mem_nextMembers_iff hvs).2 hearns
    by_cases hrank : 100 ≤ rank (s.nextMembers vs votes) v
    · refine .inr fun w hw haddr => ?_
      rwa [List.inj_on_of_nodup_map (s.nextMembers_nodup vs votes hvs) hw hv haddr]
    · exact .inl (h _ v (mem_cut_early Runtime.sorted hv (Nat.lt_of_not_le hrank)))
  · intro h rt v hv
    have hmem := mem_of_mem_cut hv
    rcases h _ _ ((exists_mem_nextMembers_iff hvs).1 ⟨v, hmem, rfl, rfl⟩) with hP | hrank
    · exact hP
    · exact absurd (rank_lt_of_mem_cut hv) (Nat.not_lt_of_le (hrank v hmem rfl))

/-- **Nobody who is banned is in the next set, if and only if** each banned validator that is passed
over has voted for nothing, and no other banned address has revealed a vote; an address that a
hundred others outrank does not matter. -/
theorem banned_excluded_iff (epoch : Epoch) (votes : Option EpochValidatorVoteSet) (s : StateDB)
    (hnodup : (epoch.validators.validators.map (·.address)).Nodup) :
    (∀ rt height newValidators,
      (shouldEnterNewEpoch rt epoch (some votes) height s).2 = .enter newValidators →
        ∀ v ∈ newValidators.validators, (s.accounts v.address).isBanned = false) ↔
      ∀ a, (s.accounts a).isBanned = true →
        ((a ∈ (passedOver s.leaves epoch.validators.validators).map (·.address) →
            ∃ key, vote votes a = some (0, key)) ∧
          (a ∉ (passedOver s.leaves epoch.validators.validators).map (·.address) →
            vote votes a = none)) ∨
        s.Outranked epoch.validators.validators votes a := by
  rw [forall_enter_iff epoch votes s hnodup fun l => ∀ v ∈ l, (s.accounts v.address).isBanned = false,
    forall_mem_cut_iff votes hnodup fun a _ => (s.accounts a).isBanned = false]
  refine forall_congr' fun a => ?_
  constructor
  · intro h hbanned
    rw [← not_earns_iff_of_isBanned hbanned]
    by_cases hearns : ∃ x, s.Earns epoch.validators.validators votes a x
    · obtain ⟨x, hx⟩ := hearns
      refine .inr ((h x hx).resolve_left ?_)
      rw [hbanned]
      exact Bool.noConfusion
    · exact .inl fun x hx => hearns ⟨x, hx⟩
  · intro h x hx
    cases hbanned : (s.accounts a).isBanned with
    | false => exact .inl rfl
    | true =>
      refine .inr ((h hbanned).resolve_left ?_)
      rw [← not_earns_iff_of_isBanned hbanned]
      exact fun hnot => hnot x hx

/-- The epoch of some validators, from block 1 to block 3. -/
def shortEpoch (vs : List Validator) : Epoch := ⟨0, 0, 1, 3, 0, 0, 0, 0, ⟨vs⟩⟩

theorem banned_excluded_twoBanned :
    (twoBanned.accounts [1]).isBanned = true ∧ ∀ rt height newValidators,
      (shouldEnterNewEpoch rt (shortEpoch [⟨[1], [], 1, 0⟩, ⟨[3], [], 5, 0⟩, ⟨[4], [], 1, 0⟩])
        (some none) height twoBanned).2 = .enter newValidators →
        ∀ v ∈ newValidators.validators, (twoBanned.accounts v.address).isBanned = false := by
  refine ⟨by decide +kernel, (banned_excluded_iff (shortEpoch [⟨[1], [], 1, 0⟩, ⟨[3], [], 5, 0⟩,
    ⟨[4], [], 1, 0⟩]) none twoBanned (by decide)).2 fun a ha =>
    .inl ⟨fun hpassed => ?_, fun _ => rfl⟩⟩
  have hthird : (passedOver twoBanned.leaves [⟨[1], [], 1, 0⟩, ⟨[3], [], 5, 0⟩, ⟨[4], [], 1, 0⟩]).map
      (·.address) = [[3]] := by decide +kernel
  obtain rfl := List.mem_singleton.1 (hthird ▸ hpassed)
  exact absurd ha (by decide +kernel)

/-- A banned validator behind another one stays in the set. -/
theorem banned_not_excluded :
    ∃ newValidators, (shouldEnterNewEpoch Runtime.sorted
        (shortEpoch [⟨[1], [], 1, 0⟩, ⟨[2], [], 1, 0⟩, ⟨[3], [], 5, 0⟩]) (some none) 3 twoBanned).2 =
          .enter newValidators ∧
      ∃ v ∈ newValidators.validators, (twoBanned.accounts v.address).isBanned = true :=
  ⟨_, rfl, by decide +kernel⟩

/-! ## A well-formed set -/

section

variable {s : StateDB} {vs : List Validator} {votes : Option EpochValidatorVoteSet}

/-- When somebody gets power. -/
theorem exists_earns_iff :
    (∃ a x, s.Earns vs votes a x) ↔
      (∃ v ∈ vs, (v ∈ passedOver s.leaves vs ∨ s.leaves v = false) ∧ vote votes v.address = none) ∨
      (∃ a x key, vote votes a = some (x, key) ∧ (x = 0 → ¬ s.Stays vs a)) ∨
      ∃ a, s.Contends vs votes a := by
  constructor
  · rintro ⟨a, x, hearns⟩
    cases hearns with
    | kept hv hvote => exact .inl ⟨_, passedOver_subset hv, .inl hv, hvote⟩
    | staked hv _ hleaves hvote => exact .inl ⟨_, hv, .inr hleaves, hvote⟩
    | voted hvote hzero => exact .inr (.inl ⟨a, x, _, hvote, hzero⟩)
    | elected ha => exact .inr (.inr ⟨a, ha⟩)
  · rintro (⟨v, hv, hstays, hvote⟩ | ⟨a, x, key, hvote, hzero⟩ | ⟨a, ha⟩)
    · by_cases hpassed : v ∈ passedOver s.leaves vs
      · exact ⟨_, _, .kept hpassed hvote⟩
      · exact ⟨_, _, .staked hv hpassed (hstays.resolve_left hpassed) hvote⟩
    · exact ⟨a, x, .voted hvote hzero⟩
    · exact ⟨a, _, .elected ha⟩

theorem nextMembers_eq_nil_iff (hvs : (vs.map (·.address)).Nodup) :
    s.nextMembers vs votes = [] ↔ ¬ ∃ a x, s.Earns vs votes a x := by
  rw [List.eq_nil_iff_forall_not_mem]
  constructor
  · rintro h ⟨a, x, hearns⟩
    obtain ⟨v, hv, -⟩ := (exists_mem_nextMembers_iff hvs).2 hearns
    exact h v hv
  · intro h v hv
    exact h ⟨_, _, (exists_mem_nextMembers_iff hvs).1 ⟨v, hv, rfl, rfl⟩⟩

end

/-- **The next set is well formed, if and only if** somebody is in it, and each power that is not
cut is positive: the stake of a validator without a vote, what has been voted for, and what is
delegated to a candidate. -/
theorem nextSet_wellFormed_iff (epoch : Epoch) (votes : Option EpochValidatorVoteSet) (s : StateDB)
    (hnodup : (epoch.validators.validators.map (·.address)).Nodup)
    (hpos : ∀ v ∈ epoch.validators.validators, 0 < v.votingPower) :
    (∀ rt height newValidators,
      (shouldEnterNewEpoch rt epoch (some votes) height s).2 = .enter newValidators →
        newValidators.validators ≠ [] ∧ newValidators.validators.length ≤ 100 ∧
          (newValidators.validators.map (·.address)).Nodup ∧
          ∀ v ∈ newValidators.validators, 0 < v.votingPower) ↔
      ((∃ v ∈ epoch.validators.validators,
          (v ∈ passedOver s.leaves epoch.validators.validators ∨ s.leaves v = false) ∧
            vote votes v.address = none) ∨
        (∃ a x key, vote votes a = some (x, key) ∧
          (x = 0 → ¬ s.Stays epoch.validators.validators a)) ∨
        ∃ a, s.Contends epoch.validators.validators votes a) ∧
      (∀ v ∈ epoch.validators.validators, v ∉ passedOver s.leaves epoch.validators.validators →
        s.leaves v = false → vote votes v.address = none →
          0 < s.stake v.address - s.dueRefunds v.address ∨
            s.Outranked epoch.validators.validators votes v.address) ∧
      (∀ a x key, vote votes a = some (x, key) → 0 < x ∨
        (x = 0 ∧ s.Stays epoch.validators.validators a) ∨
          s.Outranked epoch.validators.validators votes a) ∧
      ∀ a, s.Contends epoch.validators.validators votes a → 0 < s.netProxied a ∨
        s.Outranked epoch.validators.validators votes a := by
  have hsplit : (∀ rt : Runtime,
      rt.cut (s.nextMembers epoch.validators.validators votes) ≠ [] ∧
        (rt.cut (s.nextMembers epoch.validators.validators votes)).length ≤ 100 ∧
        ((rt.cut (s.nextMembers epoch.validators.validators votes)).map (·.address)).Nodup ∧
        ∀ v ∈ rt.cut (s.nextMembers epoch.validators.validators votes), 0 < v.votingPower) ↔
      s.nextMembers epoch.validators.validators votes ≠ [] ∧ ∀ rt : Runtime,
        ∀ v ∈ rt.cut (s.nextMembers epoch.validators.validators votes), 0 < v.votingPower := by
    simp only [ne_eq, cut_eq_nil_iff]
    constructor
    · exact fun h => ⟨(h Runtime.sorted).1, fun rt => (h rt).2.2.2⟩
    · exact fun h rt => ⟨h.1, length_cut_le rt _,
        cut_nodup rt (s.nextMembers_nodup _ votes hnodup), h.2 rt⟩
  rw [forall_enter_iff epoch votes s hnodup fun l => l ≠ [] ∧ l.length ≤ 100 ∧
    (l.map (·.address)).Nodup ∧ ∀ v ∈ l, 0 < v.votingPower, hsplit,
    forall_mem_cut_iff votes hnodup fun _ x => 0 < x, ne_eq, nextMembers_eq_nil_iff hnodup, not_not,
    exists_earns_iff]
  refine and_congr_right fun _ => ?_
  constructor
  · intro h
    refine ⟨fun v hv hvisited hleaves hvote => h _ _ (.staked hv hvisited hleaves hvote),
      fun a x key hvote => ?_, fun a ha => h _ _ (.elected ha)⟩
    by_cases hzero : x = 0 ∧ s.Stays epoch.validators.validators a
    · exact .inr (.inl hzero)
    · rcases h a x (.voted hvote fun h0 hstays => hzero ⟨h0, hstays⟩) with hx | hrank
      · exact .inl hx
      · exact .inr (.inr hrank)
  · rintro ⟨hstaked, hvoted, helected⟩ a x hearns
    cases hearns with
    | kept hv => exact .inl (hpos _ (passedOver_subset hv))
    | staked hv hvisited hleaves hvote => exact hstaked _ hv hvisited hleaves hvote
    | voted hvote hzero =>
      rcases hvoted _ _ _ hvote with hx | ⟨h0, hstays⟩ | hrank
      · exact .inl hx
      · exact absurd hstays (hzero h0)
      · exact .inr hrank
    | elected ha => exact helected _ ha

theorem nextSet_wellFormed_twoBanned :
    (twoBanned.accounts [1]).isBanned = true ∧ ∀ rt height newValidators,
      (shouldEnterNewEpoch rt (shortEpoch [⟨[3], [], 5, 0⟩, ⟨[4], [], 1, 0⟩]) (some none) height
        twoBanned).2 = .enter newValidators →
      newValidators.validators ≠ [] ∧ newValidators.validators.length ≤ 100 ∧
        (newValidators.validators.map (·.address)).Nodup ∧
        ∀ v ∈ newValidators.validators, 0 < v.votingPower := by
  refine ⟨by decide +kernel, (nextSet_wellFormed_iff (shortEpoch [⟨[3], [], 5, 0⟩, ⟨[4], [], 1, 0⟩])
    none twoBanned (by decide) (by decide)).2
    ⟨.inl ⟨⟨[3], [], 5, 0⟩, List.mem_cons_self, .inr ?_, rfl⟩, ?_, ?_, ?_⟩⟩
  · decide +kernel
  · have hstake : ∀ v ∈ [⟨[3], [], 5, 0⟩, ⟨[4], [], 1, 0⟩],
        0 < twoBanned.stake (Validator.address v) - twoBanned.dueRefunds (Validator.address v) := by
      decide +kernel
    exact fun v hv _ _ _ => .inl (hstake v hv)
  · intro a x key hvote
    cases hvote
  · intro a ha
    exact absurd ha.1 (Finset.notMem_empty a)

/-- Everybody is banned, as nobody has been seen before the last block but one; so the next set is
empty. -/
theorem nextSet_empty :
    ∃ s, updateBannedState (shortEpoch [⟨[9], [], 1, 0⟩]) 2 none StateDB.new = .ok s ∧
      ∃ newValidators, (shouldEnterNewEpoch Runtime.sorted (shortEpoch [⟨[9], [], 1, 0⟩]) (some none) 3 s).2 =
        .enter newValidators ∧ newValidators.validators = [] := by
  refine ⟨StateDB.new.banIfIdle [9], ?_, _, rfl, ?_⟩
  · have hprev : prevU64 (shortEpoch [⟨[9], [], 1, 0⟩]).endBlock = 2 := by decide
    rw [updateBannedState, hprev]
    rfl
  · decide +kernel

end NeatPoS
