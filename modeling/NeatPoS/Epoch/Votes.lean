import NeatPoS.Epoch.Loop
import NeatPoS.Epoch.Orders
import NeatPoS.Lib.Keyed

/-!
# The votes are counted

`updateEpochValidatorSet` in closed form.  It goes through the votes and changes the validator set
at each of them; as every address has one vote, the outcome is that each validator has been treated
according to its own vote (`afterVote`), and the votes of the other addresses have made newcomers
(`newcomer`).  `foldl_mergeVote` says so, and `updateEpochValidatorSet_eq` adds the limit: if there
are more than a hundred, they are sorted and cut.
-/

set_option autoImplicit false

namespace NeatPoS

variable {v : Validator} {amount : Int} {pubKey : Bytes}

/-! ## Votes -/

/-- What a vote says, if it is revealed. -/
def EpochValidatorVote.revealed (v : EpochValidatorVote) : Option (Int × Bytes) :=
  match v.amount, v.pubKey with
  | some amount, some pubKey => if v.salt = "" then none else some (amount, pubKey)
  | _, _ => none

/-- What an address has voted for, if it has revealed it. -/
def voteOf (votes : List EpochValidatorVote) (a : Address) : Option (Int × Bytes) :=
  (votes.find? fun v => v.address == a).bind EpochValidatorVote.revealed

/-- What becomes of a validator when the votes are counted. -/
def afterVote (votes : List EpochValidatorVote) (v : Validator) : Option Validator :=
  match voteOf votes v.address with
  | none => some v
  | some (amount, _) => if amount = 0 then none else some { v with votingPower := amount }

/-- The validator that a vote makes of an address that is not one. -/
def newcomer (vs : List Validator) (w : EpochValidatorVote) : Option Validator :=
  match w.revealed with
  | none => none
  | some (amount, pubKey) =>
    if w.address ∈ vs.map (·.address) then none else some ⟨w.address, pubKey, amount, 0⟩

/-- The refund for a vote. -/
def voteRefund (vs : List Validator) (w : EpochValidatorVote) : Option RefundValidatorAmount :=
  match w.revealed, vs.find? fun v => v.address == w.address with
  | some (amount, _), some v =>
    if amount = 0 then some ⟨w.address, some v.votingPower, false⟩
    else if amount < v.votingPower then some ⟨w.address, some (v.votingPower - amount), false⟩
    else none
  | _, _ => none

theorem mergeVote_eq (m : Merge) (w : EpochValidatorVote) :
    mergeVote m w =
      match w.revealed, (m.validators.getByAddress w.address).2 with
      | none, _ => m
      | some (amount, pubKey), none =>
        ⟨m.validators.add ⟨w.address, pubKey, amount, 0⟩, m.refund, m.newValSize + 1⟩
      | some (amount, _), some v =>
        if amount = 0 then
          ⟨m.validators.remove v.address, m.refund ++ [⟨w.address, some v.votingPower, false⟩],
            m.newValSize⟩
        else
          ⟨m.validators.update { v with votingPower := amount },
            if amount < v.votingPower then
              m.refund ++ [⟨w.address, some (v.votingPower - amount), false⟩]
            else m.refund, m.newValSize⟩ := by
  rw [mergeVote, EpochValidatorVote.revealed]
  cases w.amount with
  | none => rfl
  | some =>
    cases w.pubKey with
    | none => rfl
    | some =>
      dsimp only
      split
      · rfl
      · split <;> rename_i h <;> simp only [h]

/-! ## Validators with distinct addresses -/

namespace ValidatorSet

variable {l : List Validator}

theorem getByAddress_snd (l : List Validator) (a : Address) :
    ((⟨l⟩ : ValidatorSet).getByAddress a).2 = l.find? fun v => v.address == a := by
  rw [getByAddress]
  dsimp only
  cases h : l.findIdx? fun v => v.address == a with
  | none =>
    rw [List.findIdx?_eq_none_iff] at h
    rw [eq_comm, List.find?_eq_none]
    intro v hv
    simp [h v hv]
  | some i =>
    obtain ⟨hi, hp, hfirst⟩ := List.findIdx?_eq_some_iff_getElem.1 h
    dsimp only
    rw [List.getElem?_eq_getElem hi, eq_comm, List.find?_eq_some_iff_getElem]
    exact ⟨hp, i, hi, rfl, fun j hj => by simpa using hfirst j hj⟩

theorem remove_eq_filter (hl : (l.map (·.address)).Nodup) (a : Address) :
    (⟨l⟩ : ValidatorSet).remove a = ⟨l.filter fun v => v.address != a⟩ := by
  rw [remove, Keyed.eraseP_eq_filter hl]

theorem update_eq_map (hl : (l.map (·.address)).Nodup) (hv : v.address ∈ l.map (·.address)) :
    (⟨l⟩ : ValidatorSet).update v = ⟨l.map fun w => if w.address = v.address then v else w⟩ := by
  cases hi : l.findIdx? fun w => w.address == v.address with
  | none =>
    obtain ⟨w, hw, hwv⟩ := List.mem_map.1 hv
    exact absurd (beq_iff_eq.2 hwv) (by simpa using List.findIdx?_eq_none_iff.1 hi w hw)
  | some i =>
    have hidx : ((⟨l⟩ : ValidatorSet).getByAddress v.address).1 = i := by rw [getByAddress, hi]
    rw [update, hidx, Keyed.set_eq_map hl hi]

end ValidatorSet

/-! ## The votes are counted -/

section Merge

variable {vs : List Validator} {votes : List EpochValidatorVote} {w : EpochValidatorVote}

theorem voteOf_eq_none {a : Address} (ha : a ∉ votes.map (·.address)) : voteOf votes a = none := by
  rw [voteOf, Keyed.find_eq_none_iff.2 ha, Option.bind_none]

theorem voteOf_concat (hw : w.address ∉ votes.map (·.address)) (a : Address) :
    voteOf (votes ++ [w]) a = if a = w.address then w.revealed else voteOf votes a := by
  by_cases ha : a = w.address
  · subst ha
    rw [if_pos rfl, voteOf, List.find?_append, Keyed.find_eq_none_iff.2 hw]
    simp
  · have hwa : (w.address == a) = false := by simpa using Ne.symm ha
    rw [if_neg ha, voteOf, voteOf, List.find?_append]
    simp [hwa]

theorem afterVote_address {v' : Validator} (h : afterVote votes v = some v') :
    v'.address = v.address := by
  rw [afterVote] at h
  split at h
  · rw [Option.some.inj h]
  · split at h
    · cases h
    · rw [← Option.some.inj h]

theorem newcomer_address (h : newcomer vs w = some v) :
    v.address = w.address ∧ w.address ∉ vs.map (·.address) := by
  rw [newcomer] at h
  split at h
  · cases h
  split at h
  · cases h
  · rename_i hmem
    rw [← Option.some.inj h]
    exact ⟨rfl, hmem⟩

/-- The validators, once the votes are counted. -/
def counted (vs : List Validator) (votes : List EpochValidatorVote) : List Validator :=
  vs.filterMap (afterVote votes) ++ votes.filterMap (newcomer vs)

theorem mem_counted :
    v ∈ counted vs votes ↔
      (∃ u ∈ vs, afterVote votes u = some v) ∨ ∃ w ∈ votes, newcomer vs w = some v := by
  rw [counted, List.mem_append, List.mem_filterMap, List.mem_filterMap]

theorem counted_nodup (hvs : (vs.map (·.address)).Nodup) (hvotes : (votes.map (·.address)).Nodup) :
    ((counted vs votes).map (·.address)).Nodup := by
  have hafter : ((vs.filterMap (afterVote votes)).map (·.address)).Sublist (vs.map (·.address)) :=
    Keyed.map_filterMap_sublist (fun _ _ => afterVote_address) vs
  have hnew : ((votes.filterMap (newcomer vs)).map (·.address)).Sublist (votes.map (·.address)) :=
    Keyed.map_filterMap_sublist (fun _ _ h => (newcomer_address h).1) votes
  rw [counted, List.map_append, List.nodup_append]
  refine ⟨hvs.sublist hafter, hvotes.sublist hnew, fun a ha b hb hab => ?_⟩
  obtain ⟨_, hv, rfl⟩ := List.mem_map.1 hb
  obtain ⟨_, -, hwv⟩ := List.mem_filterMap.1 hv
  obtain ⟨haddr, hnot⟩ := newcomer_address hwv
  refine hnot ?_
  rw [← haddr, ← hab]
  exact hafter.subset ha

/-- The validator that a vote is about. -/
theorem mem_counted_of_find (hvs : (vs.map (·.address)).Nodup)
    (hw : w.address ∉ votes.map (·.address))
    (hfind : vs.find? (fun v => v.address == w.address) = some v) :
    v.address = w.address ∧ w.address ∈ vs.map (·.address) ∧ v ∈ counted vs votes := by
  obtain ⟨hv, haddr⟩ := (Keyed.find_eq_some_iff hvs).1 hfind
  refine ⟨haddr, haddr ▸ List.mem_map_of_mem hv, mem_counted.2 (.inl ⟨v, hv, ?_⟩)⟩
  rw [afterVote, haddr, voteOf_eq_none hw]

/-- The validator with the address of a vote, before the vote is counted. -/
theorem find_counted (hvs : (vs.map (·.address)).Nodup) (hvotes : (votes.map (·.address)).Nodup)
    (hw : w.address ∉ votes.map (·.address)) :
    (counted vs votes).find? (fun v => v.address == w.address) =
      vs.find? fun v => v.address == w.address := by
  cases hfind : vs.find? fun v => v.address == w.address with
  | none =>
    rw [Keyed.find_eq_none_iff] at hfind ⊢
    intro hmem
    obtain ⟨v, hv, hvw⟩ := List.mem_map.1 hmem
    rcases mem_counted.1 hv with ⟨u, hu, huv⟩ | ⟨u, hu, huv⟩
    · exact hfind (hvw ▸ afterVote_address huv ▸ List.mem_map_of_mem hu)
    · exact hw (hvw ▸ (newcomer_address huv).1 ▸ List.mem_map_of_mem hu)
  | some =>
    obtain ⟨haddr, -, hmem⟩ := mem_counted_of_find hvs hw hfind
    exact (Keyed.find_eq_some_iff (counted_nodup hvs hvotes)).2 ⟨hmem, haddr⟩

theorem voteOf_singleton (w : EpochValidatorVote) (a : Address) :
    voteOf [w] a = if a = w.address then w.revealed else none := by
  by_cases ha : a = w.address
  · simp [voteOf, ha]
  · have hwa : (w.address == a) = false := by simpa using Ne.symm ha
    simp [voteOf, ha, hwa]

section

variable (hw : w.address ∉ votes.map (·.address))
include hw

theorem filterMap_afterVote_concat :
    vs.filterMap (afterVote (votes ++ [w])) =
      vs.filterMap fun v => if v.address = w.address then afterVote [w] v else afterVote votes v := by
  refine List.filterMap_congr fun v _ => ?_
  by_cases hv : v.address = w.address
  · rw [if_pos hv, afterVote, afterVote, voteOf_concat hw, voteOf_singleton, if_pos hv, if_pos hv]
  · rw [if_neg hv, afterVote, afterVote, voteOf_concat hw, if_neg hv]

/-- A vote that is not revealed changes nothing. -/
theorem counted_concat_of_none (hnone : w.revealed = none) :
    counted vs (votes ++ [w]) = counted vs votes := by
  have hnew : newcomer vs w = none := by rw [newcomer, hnone]
  rw [counted, counted, filterMap_afterVote_concat hw, List.filterMap_append]
  congr 1
  · refine List.filterMap_congr fun v _ => ?_
    split
    · rename_i hv
      rw [afterVote, afterVote, hv, voteOf_eq_none hw, voteOf_singleton, if_pos rfl, hnone]
    · rfl
  · simp [hnew]

/-- The vote of an address that is no validator adds one. -/
theorem counted_concat_of_not_mem
    (hvs : w.address ∉ vs.map (·.address)) (hw' : w.revealed = some (amount, pubKey)) :
    counted vs (votes ++ [w]) = counted vs votes ++ [⟨w.address, pubKey, amount, 0⟩] := by
  have hnew : newcomer vs w = some ⟨w.address, pubKey, amount, 0⟩ := by
    rw [newcomer, hw']
    exact if_neg hvs
  rw [counted, counted, filterMap_afterVote_concat hw, List.filterMap_append, List.append_assoc]
  congr 1
  · refine List.filterMap_congr fun v hv => if_neg fun hvw => hvs ?_
    exact hvw ▸ List.mem_map_of_mem hv
  · simp [hnew]

/-- The vote of a validator removes it or changes its power. -/
theorem counted_concat_of_mem
    (hvs : w.address ∈ vs.map (·.address))
    (hw' : w.revealed = some (amount, pubKey)) :
    counted vs (votes ++ [w]) = (counted vs votes).filterMap fun v =>
      if v.address = w.address then
        if amount = 0 then none else some { v with votingPower := amount }
      else some v := by
  have hnew : newcomer vs w = none := by
    rw [newcomer, hw']
    exact if_pos hvs
  have hone (v : Validator) (hv : v.address = w.address) :
      afterVote [w] v = if amount = 0 then none else some { v with votingPower := amount } := by
    rw [afterVote, voteOf_singleton, if_pos hv, hw']
  rw [counted, counted, filterMap_afterVote_concat hw, List.filterMap_append, List.filterMap_append,
    List.filterMap_filterMap, List.filterMap_filterMap]
  congr 1
  · refine List.filterMap_congr fun v _ => ?_
    split
    · rename_i hv
      have hsame : afterVote votes v = some v := by rw [afterVote, hv, voteOf_eq_none hw]
      rw [hsame, Option.bind_some, if_pos hv, hone v hv]
    · rename_i hv
      cases hafter : afterVote votes v with
      | none => rfl
      | some => rw [Option.bind_some, if_neg (afterVote_address hafter ▸ hv)]
  · have hsame : votes.filterMap (newcomer vs) = votes.filterMap fun u => (newcomer vs u).bind fun v =>
        if v.address = w.address then
          if amount = 0 then none else some { v with votingPower := amount }
        else some v := by
      refine List.filterMap_congr fun u hu => ?_
      cases hu' : newcomer vs u with
      | none => rfl
      | some =>
        rw [Option.bind_some, if_neg]
        rw [(newcomer_address hu').1]
        exact fun huw => hw (huw ▸ List.mem_map_of_mem hu)
    rw [← hsame]
    simp [hnew]

end

theorem remove_counted (hvs : (vs.map (·.address)).Nodup) (hvotes : (votes.map (·.address)).Nodup)
    (hw : w.address ∉ votes.map (·.address))
    (hfind : vs.find? (fun v => v.address == w.address) = some v) (hw' : w.revealed = some (0, pubKey)) :
    (⟨counted vs votes⟩ : ValidatorSet).remove v.address = ⟨counted vs (votes ++ [w])⟩ := by
  obtain ⟨haddr, hmem, -⟩ := mem_counted_of_find hvs hw hfind
  rw [ValidatorSet.remove_eq_filter (counted_nodup hvs hvotes), counted_concat_of_mem hw hmem hw',
    ← List.filterMap_eq_filter, haddr]
  congr 1
  refine List.filterMap_congr fun u _ => ?_
  by_cases hu : u.address = w.address <;> simp [hu, Option.guard]

theorem update_counted (hvs : (vs.map (·.address)).Nodup) (hvotes : (votes.map (·.address)).Nodup)
    (hw : w.address ∉ votes.map (·.address))
    (hfind : vs.find? (fun v => v.address == w.address) = some v)
    (hw' : w.revealed = some (amount, pubKey)) (hamount : amount ≠ 0) :
    (⟨counted vs votes⟩ : ValidatorSet).update { v with votingPower := amount } =
      ⟨counted vs (votes ++ [w])⟩ := by
  obtain ⟨haddr, hmem, hcounted⟩ := mem_counted_of_find hvs hw hfind
  have hnodup := counted_nodup hvs hvotes
  have hupdated : ({ v with votingPower := amount } : Validator).address ∈
      (counted vs votes).map (·.address) := List.mem_map.2 ⟨v, hcounted, rfl⟩
  rw [ValidatorSet.update_eq_map hnodup hupdated, counted_concat_of_mem hw hmem hw',
    ← List.filterMap_eq_map]
  congr 1
  refine List.filterMap_congr fun u hu => ?_
  dsimp only [Function.comp]
  rw [haddr]
  by_cases huw : u.address = w.address
  · obtain rfl : u = v := List.inj_on_of_nodup_map hnodup hu hcounted (huw.trans haddr.symm)
    rw [if_pos huw, if_pos huw, if_neg hamount, haddr]
  · rw [if_neg huw, if_neg huw]

/-- **The votes are counted.** -/
theorem foldl_mergeVote (hvs : (vs.map (·.address)).Nodup) (hvotes : (votes.map (·.address)).Nodup) :
    votes.foldl mergeVote ⟨⟨vs⟩, [], 0⟩ =
      ⟨⟨counted vs votes⟩, votes.filterMap (voteRefund vs),
        (votes.filterMap (newcomer vs)).length⟩ := by
  induction votes using List.reverseRecOn with
  | nil =>
    have hnil : counted vs [] = vs := by
      have hafter : vs.filterMap (afterVote []) = vs.filterMap some :=
        List.filterMap_congr fun v _ => by rw [afterVote, voteOf_eq_none List.not_mem_nil]
      rw [counted, hafter, List.filterMap_some]
      exact List.append_nil vs
    rw [hnil]
    rfl
  | append_singleton votes w ih =>
    rw [List.map_append, List.map_singleton, List.nodup_append] at hvotes
    obtain ⟨hvotes, -, hdisjoint⟩ := hvotes
    have hw : w.address ∉ votes.map (·.address) := fun hmem =>
      hdisjoint _ hmem _ (List.mem_singleton_self _) rfl
    rw [List.foldl_append, ih hvotes, List.foldl_cons, List.foldl_nil, mergeVote_eq,
      ValidatorSet.getByAddress_snd, find_counted hvs hvotes hw, List.filterMap_append,
      List.filterMap_append]
    have hrefund : voteRefund vs w = match w.revealed, vs.find? fun v => v.address == w.address with
        | some (amount, _), some v =>
          if amount = 0 then some ⟨w.address, some v.votingPower, false⟩
          else if amount < v.votingPower then
            some ⟨w.address, some (v.votingPower - amount), false⟩
          else none
        | _, _ => none := rfl
    cases hrevealed : w.revealed with
    | none =>
      have hnew : newcomer vs w = none := by rw [newcomer, hrevealed]
      rw [hrevealed] at hrefund
      rw [counted_concat_of_none hw hrevealed]
      simp [hnew, hrefund]
    | some vote =>
      obtain ⟨amount, pubKey⟩ := vote
      rw [hrevealed] at hrefund
      cases hfind : vs.find? fun v => v.address == w.address with
      | none =>
        have hnot := Keyed.find_eq_none_iff.1 hfind
        have hnew : newcomer vs w = some ⟨w.address, pubKey, amount, 0⟩ := by
          rw [newcomer, hrevealed]
          exact if_neg hnot
        rw [hfind] at hrefund
        rw [counted_concat_of_not_mem hw hnot hrevealed]
        simp [hnew, hrefund, ValidatorSet.add]
      | some v =>
        have hnew : newcomer vs w = none := by
          rw [newcomer, hrevealed]
          exact if_pos (mem_counted_of_find hvs hw hfind).2.1
        rw [hfind] at hrefund
        dsimp only at hrefund ⊢
        by_cases hzero : amount = 0
        · subst hzero
          rw [if_pos rfl, remove_counted hvs hvotes hw hfind hrevealed]
          simp [hnew, hrefund]
        · rw [if_neg hzero] at hrefund
          rw [if_neg hzero, update_counted hvs hvotes hw hfind hrevealed hzero]
          by_cases hless : amount < v.votingPower <;> simp [hnew, hrefund, hless]

end Merge

/-! ## The limit -/

/-- The validators of the next epoch, before they are cut at a hundred. -/
def members (vs : List Validator) (votes : List EpochValidatorVote) : List Validator :=
  (counted vs votes).map fun v => { v with remainingEpoch := v.remainingEpoch - 1 }

theorem members_map_address (vs : List Validator) (votes : List EpochValidatorVote) :
    (members vs votes).map (·.address) = (counted vs votes).map (·.address) := by
  rw [members, List.map_map]
  rfl

theorem counted_length_le (vs : List Validator) (votes : List EpochValidatorVote) :
    (counted vs votes).length ≤ vs.length + (votes.filterMap (newcomer vs)).length := by
  rw [counted, List.length_append]
  exact Nat.add_le_add_right (List.length_filterMap_le _ _) _

/-- **`updateEpochValidatorSet`**: the votes are counted, and the set is cut if it is too large. -/
theorem updateEpochValidatorSet_eq (rt : Runtime) {vs : List Validator}
    {voteSet : EpochValidatorVoteSet} (hvs : (vs.map (·.address)).Nodup) :
    updateEpochValidatorSet rt ⟨vs⟩ voteSet =
      if 100 < (members vs voteSet.votes).length then
        (⟨(rt.sortValidators.sort (members vs voteSet.votes)).take 100⟩,
          voteSet.votes.filterMap (voteRefund vs) ++
            ((rt.sortValidators.sort (members vs voteSet.votes)).drop 100).map fun k =>
              ⟨k.address, none, true⟩)
      else (⟨members vs voteSet.votes⟩, voteSet.votes.filterMap (voteRefund vs)) := by
  have hlen := counted_length_le vs voteSet.votes
  have hsize : (subtractRemainingEpoch ⟨counted vs voteSet.votes⟩).size =
      (counted vs voteSet.votes).length := List.length_map _
  have hmembers : (members vs voteSet.votes).length = (counted vs voteSet.votes).length :=
    List.length_map _
  rw [updateEpochValidatorSet, foldl_mergeVote hvs voteSet.nodup]
  dsimp only
  rw [hsize, hmembers, ValidatorSet.size]
  by_cases h : 100 < (counted vs voteSet.votes).length
  · have hval : determineValSize (vs.length + (voteSet.votes.filterMap (newcomer vs)).length) = 100 :=
      if_pos (Nat.lt_of_lt_of_le h hlen)
    rw [hval, if_pos h, if_pos h]
    rfl
  · have hval : ¬ determineValSize (vs.length + (voteSet.votes.filterMap (newcomer vs)).length) <
        (counted vs voteSet.votes).length := by
      rw [determineValSize, maximumValidatorsSize, minimumValidatorsSize]
      split
      · exact h
      · split <;> omega
    rw [if_neg hval, if_neg h]
    rfl

end NeatPoS
