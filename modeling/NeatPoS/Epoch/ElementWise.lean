import NeatPoS.Core.Genesis
import NeatPoS.Epoch.Loop

/-!
# Is each validator processed once?

The loop over the validators is meant to be element-wise: `processEach` says what it should do to a
list of validators.  `Epoch/Loop.lean` counts how often each validator is really visited.  This file
compares the two.

A validator that is passed over keeps its place and its power, so that this makes no difference
exactly if there was nothing to do for it (`settled`).  A validator that is visited again makes no
difference unless it is banned: then it gets another refund, and loses another epoch of its ban.
Only the last validator is visited again, once for each that has been passed over.  Who is passed
over can be read off the list: it is the successor of a validator that is removed, unless it is the
last one.  `validatorLoop_effect_iff` puts this together.
-/

set_option autoImplicit false

namespace NeatPoS

open StateDB

/-! ## The specification -/

/-- What the loop over the validators does, as far as it is seen outside. -/
structure LoopEffect where
  validators : List Validator
  refunds : List RefundValidatorAmount
  bannedTime : Address → Nat

/-- The effect of the loop. -/
def LoopState.effect (st : LoopState) : LoopEffect :=
  ⟨st.validators, st.refunds, fun a => (st.db.accounts a).bannedTime⟩

/-- Each validator is processed once, as it is found: one that is banned or has no stake goes, and
the others get the power of their stake; one that is banned gets a refund, and one epoch of its ban
is over. -/
def processEach (s : StateDB) (vs : List Validator) : LoopEffect where
  validators := (vs.filter fun v => !s.drops v).map s.powered
  refunds := s.banRefunds vs
  bannedTime := fun a =>
    if a ∈ vs.map (·.address) ∧ (s.accounts a).isBanned = true then (s.accounts a).bannedTime - 1
    else (s.accounts a).bannedTime

/-- A validator to which a visit does nothing. -/
def StateDB.settled (s : StateDB) (v : Validator) : Bool :=
  !s.drops v && v.votingPower == s.stake v.address

/-! ## The visits -/

namespace StateDB

variable (s : StateDB)

theorem dropIfBanned_bannedTime (a b : Address) :
    ((s.dropIfBanned a).accounts b).bannedTime =
      (s.accounts b).bannedTime - if b = a ∧ (s.accounts a).isBanned = true then 1 else 0 := by
  have hnew (t : StateDB) (c : Address) :
      ((t.getOrNewStateObject a).accounts c).bannedTime = (t.accounts c).bannedTime := by
    rw [getOrNewStateObject]
    split
    · rfl
    · by_cases hc : c = a
      · subst hc
        simp [markStateObjectDirty]
      · simp [markStateObjectDirty, Function.update_of_ne hc]
  rw [dropIfBanned_eq]
  by_cases hb : (s.accounts a).isBanned = true
  · rw [if_pos hb, serveBan_eq]
    simp only [hb, and_true]
    have htime (c : Address) : (((s.getOrNewStateObject a).deleteCandidate a).accounts c).bannedTime =
        (s.accounts c).bannedTime := hnew s c
    rw [htime a]
    by_cases hba : b = a
    · subst hba
      rw [if_pos rfl]
      split
      · simp [setBannedTime, setAccount, markStateObjectDirty]
      · rw [hnew, htime]
        omega
    · rw [if_neg hba, Nat.sub_zero]
      split
      · rw [← htime b, ← hnew ((s.getOrNewStateObject a).deleteCandidate a) b]
        simp [setBannedTime, setAccount, markStateObjectDirty, Function.update_of_ne hba, hnew]
      · rw [hnew, htime]
  · rw [if_neg hb, hnew, if_neg fun h => hb h.2, Nat.sub_zero]

theorem foldl_dropIfBanned_bannedTime (l : List Address) (s : StateDB) (a : Address) :
    ((l.foldl dropIfBanned s).accounts a).bannedTime =
      (s.accounts a).bannedTime - if (s.accounts a).isBanned = true then l.count a else 0 := by
  induction l generalizing s with
  | nil => simp
  | cons b _ ih =>
    rw [List.foldl_cons, ih, (dropIfBanned_posts s b).isBanned, dropIfBanned_bannedTime]
    by_cases hab : a = b
    · subst hab
      simp only [true_and, List.count_cons_self]
      split <;> omega
    · rw [if_neg fun h => hab h.1, List.count_cons_of_ne (Ne.symm hab), Nat.sub_zero]

/-- The visits are such that it makes no difference how many they are. -/
def Fine (s : StateDB) (l : List (Validator × Nat)) : Prop :=
  ∀ v ∈ l, (v.2 = 0 → s.settled v.1 = true) ∧ ((s.accounts v.1.address).isBanned = true → v.2 ≤ 1)

section Fine

variable {s : StateDB} {l : List (Validator × Nat)} {v : Validator}

theorem settled_iff :
    s.settled v = true ↔ s.drops v = false ∧ v.votingPower = s.stake v.address := by
  simp [settled]

theorem powered_of_settled (h : s.settled v = true) : s.powered v = v := by
  rw [powered, ← (settled_iff.1 h).2]

theorem isBanned_of_settled (h : s.settled v = true) : (s.accounts v.address).isBanned = false := by
  have hd := (settled_iff.1 h).1
  simp only [drops, Bool.or_eq_false_iff] at hd
  exact hd.1

theorem Fine.tail {v : Validator × Nat} (h : s.Fine (v :: l)) : s.Fine l :=
  fun w hw => h w (List.mem_cons_of_mem v hw)

/-- A banned validator is visited once. -/
theorem Fine.eq_one (h : s.Fine l) {v : Validator × Nat} (hv : v ∈ l)
    (hb : (s.accounts v.1.address).isBanned = true) : v.2 = 1 := by
  obtain ⟨hzero, hone⟩ := h v hv
  have hne : v.2 ≠ 0 := fun h0 => by
    rw [isBanned_of_settled (hzero h0)] at hb
    cases hb
  have := hone hb
  omega

theorem Fine.validators (h : s.Fine l) :
    l.filterMap s.outcome = ((l.map Prod.fst).filter fun v => !s.drops v).map s.powered := by
  induction l with
  | nil => rfl
  | cons v _ ih =>
    have hv : s.outcome v = if s.drops v.1 then none else some (s.powered v.1) := by
      rw [outcome]
      split
      · rename_i h0
        have hsettled := (h v List.mem_cons_self).1 h0
        rw [powered_of_settled hsettled, (settled_iff.1 hsettled).1]
        rfl
      · rfl
    rw [List.filterMap_cons, hv, ih h.tail, List.map_cons, List.filter_cons]
    cases s.drops v.1 <;> rfl

theorem Fine.banned (h : s.Fine l) :
    (visited l).filter (fun v => (s.accounts v.address).isBanned) =
      (l.map Prod.fst).filter fun v => (s.accounts v.address).isBanned := by
  induction l with
  | nil => rfl
  | cons v l ih =>
    have hcons : visited (v :: l) = List.replicate v.2 v.1 ++ visited l := List.flatMap_cons
    rw [hcons, List.filter_append, ih h.tail, List.map_cons, List.filter_cons, List.filter_replicate]
    cases hb : (s.accounts v.1.address).isBanned with
    | false => rfl
    | true =>
      rw [h.eq_one List.mem_cons_self hb]
      rfl

end Fine

theorem count_map_filter {a : Address} (ha : (s.accounts a).isBanned = true) (l : List Validator) :
    ((l.filter fun v => (s.accounts v.address).isBanned).map (·.address)).count a =
      (l.map (·.address)).count a := by
  induction l with
  | nil => rfl
  | cons v _ ih =>
    rw [List.filter_cons, List.map_cons]
    by_cases hv : v.address = a
    · rw [hv, if_pos ha, List.map_cons, hv, List.count_cons_self, List.count_cons_self, ih]
    · rw [List.count_cons_of_ne hv]
      split
      · rw [List.map_cons, List.count_cons_of_ne hv, ih]
      · exact ih

theorem length_banRefunds_visited (l : List (Validator × Nat)) :
    (s.banRefunds (visited l)).length =
      (l.map fun v => if (s.accounts v.1.address).isBanned then v.2 else 0).sum := by
  rw [banRefunds, List.length_map, visited, List.filter_flatMap, List.length_flatMap]
  congr 1
  refine List.map_congr_left fun v _ => ?_
  rw [List.filter_replicate]
  cases (s.accounts v.1.address).isBanned
  · rfl
  · exact List.length_replicate

theorem length_banRefunds_fst (l : List (Validator × Nat)) :
    (s.banRefunds (l.map Prod.fst)).length =
      (l.map fun v => if (s.accounts v.1.address).isBanned then 1 else 0).sum := by
  have hvisited : visited (l.map fun v => (v.1, 1)) = l.map Prod.fst := by
    rw [visited, List.flatMap_map, List.map_eq_flatMap]
    rfl
  rw [← hvisited, length_banRefunds_visited, List.map_map]
  rfl

end StateDB

/-- **When the loop processes each validator once**, in terms of the visits. -/
theorem validatorLoop_effect_iff_fine (s : StateDB) {vs : List Validator}
    (hnodup : (vs.map (·.address)).Nodup) :
    (validatorLoop s vs).effect = processEach s vs ↔ s.Fine (visits s.drops 0 vs) := by
  obtain ⟨hdb, hrefunds, hvalidators⟩ := validatorLoop_swept s hnodup
  have hfst := visits_map_fst s.drops 0 vs
  have heffect : (validatorLoop s vs).effect = ⟨(visits s.drops 0 vs).filterMap s.outcome,
      s.banRefunds (visited (visits s.drops 0 vs)), fun a => (s.accounts a).bannedTime -
        if (s.accounts a).isBanned = true then
          ((visited (visits s.drops 0 vs)).map (·.address)).count a else 0⟩ := by
    rw [LoopState.effect, hdb, hrefunds, hvalidators]
    simp only [foldl_dropIfBanned_bannedTime]
  rw [heffect]
  generalize visits s.drops 0 vs = l at hfst
  constructor
  · intro h v hv
    rw [processEach, LoopEffect.mk.injEq] at h
    obtain ⟨hvals, hrefs, -⟩ := h
    have hmem (w : Validator × Nat) (hw : w ∈ l) : w.1 ∈ vs := hfst ▸ List.mem_map_of_mem hw
    have hsettled (w : Validator × Nat) (hw : w ∈ l) (h0 : w.2 = 0) : s.settled w.1 = true := by
      have hout : w.1 ∈ l.filterMap s.outcome :=
        List.mem_filterMap.2 ⟨w, hw, by rw [outcome, if_pos h0]⟩
      rw [hvals, List.mem_map] at hout
      obtain ⟨u, hu, huw⟩ := hout
      obtain ⟨hu, hdrops⟩ := List.mem_filter.1 hu
      have haddr : (s.powered u).address = w.1.address := congrArg Validator.address huw
      obtain rfl : u = w.1 := List.inj_on_of_nodup_map hnodup hu (hmem w hw) haddr
      refine settled_iff.2 ⟨by simpa using hdrops, ?_⟩
      exact (congrArg Validator.votingPower huw).symm
    refine ⟨hsettled v hv, fun hb => ?_⟩
    by_contra hlt
    -- the refunds are too many: each banned validator has one, and this one has two
    have hlen := congrArg List.length hrefs
    rw [← hfst, length_banRefunds_visited, length_banRefunds_fst] at hlen
    refine absurd hlen (Nat.ne_of_gt (List.sum_lt_sum _ _ (fun w hw => ?_) ⟨v, hv, ?_⟩))
    · split
      · rename_i hbw
        refine Nat.one_le_iff_ne_zero.2 fun h0 => ?_
        rw [isBanned_of_settled (hsettled w hw h0)] at hbw
        cases hbw
      · exact Nat.le_refl 0
    · rw [if_pos hb, if_pos hb]
      omega
  · intro h
    rw [processEach, LoopEffect.mk.injEq]
    refine ⟨?_, ?_, funext fun a => ?_⟩
    · rw [h.validators, hfst]
    · rw [banRefunds, h.banned, hfst, banRefunds]
    by_cases hb : (s.accounts a).isBanned = true
    · rw [if_pos hb, ← count_map_filter s hb, h.banned, hfst, count_map_filter s hb, hnodup.count]
      simp only [hb, and_true]
      split <;> rfl
    · rw [if_neg hb, if_neg fun h => hb h.2, Nat.sub_zero]

namespace StateDB

/-- A validator is passed over: one before it is removed, and it is not the last. -/
def Passes (s : StateDB) (vs : List Validator) : Prop :=
  ∃ i, ∃ _ : i + 2 < vs.length, s.drops vs[i] = true

/-- Whoever is passed over needed no visit. -/
def Undisturbed (s : StateDB) (vs : List Validator) : Prop :=
  ∀ i, ∀ _ : i + 2 < vs.length, s.drops vs[i] = true → s.settled vs[i + 1] = true

variable {s : StateDB} {v w u : Validator} {l : List Validator}

theorem passes_cons_cons_cons :
    s.Passes (v :: w :: u :: l) ↔ s.drops v = true ∨ s.Passes (w :: u :: l) := by
  constructor
  · rintro ⟨i, hi, hd⟩
    cases i with
    | zero => exact .inl hd
    | succ i => exact .inr ⟨i, Nat.lt_of_succ_lt_succ hi, hd⟩
  · rintro (hd | ⟨i, hi, hd⟩)
    · exact ⟨0, by simp, hd⟩
    · exact ⟨i + 1, Nat.succ_lt_succ hi, hd⟩

theorem undisturbed_cons_cons_cons :
    s.Undisturbed (v :: w :: u :: l) ↔
      (s.drops v = true → s.settled w = true) ∧ s.Undisturbed (w :: u :: l) := by
  constructor
  · intro h
    exact ⟨h 0 (by simp), fun i hi => h (i + 1) (Nat.succ_lt_succ hi)⟩
  · rintro ⟨hhead, htail⟩ i hi
    cases i with
    | zero => exact hhead
    | succ i => exact htail i (Nat.lt_of_succ_lt_succ hi)

theorem not_passes_of_length {vs : List Validator} (h : vs.length ≤ 2) : ¬ s.Passes vs := by
  rintro ⟨i, hi, -⟩
  omega

theorem undisturbed_of_length {vs : List Validator} (h : vs.length ≤ 2) : s.Undisturbed vs := by
  intro i hi
  omega

/-- A validator that stays where it is does not pass over the next one. -/
theorem passes_of_not_drops (hd : s.drops v = false) : s.Passes (v :: w :: l) ↔ s.Passes (w :: l) := by
  cases l with
  | nil => exact iff_of_false (not_passes_of_length (by simp)) (not_passes_of_length (by simp))
  | cons => rw [passes_cons_cons_cons, hd, or_iff_right Bool.false_ne_true]

theorem undisturbed_of_not_drops (hd : s.drops v = false) :
    s.Undisturbed (v :: w :: l) ↔ s.Undisturbed (w :: l) := by
  cases l with
  | nil => exact iff_of_true (undisturbed_of_length (by simp)) (undisturbed_of_length (by simp))
  | cons =>
    rw [undisturbed_cons_cons_cons, hd]
    exact and_iff_right fun h => absurd h Bool.false_ne_true

theorem fine_cons {c : Nat} {l : List (Validator × Nat)} :
    s.Fine ((v, c) :: l) ↔ ((c = 0 → s.settled v = true) ∧
      ((s.accounts v.address).isBanned = true → c ≤ 1)) ∧ s.Fine l := by
  rw [Fine, Fine, List.forall_mem_cons]

theorem fine_one {l : List (Validator × Nat)} : s.Fine ((v, 1) :: l) ↔ s.Fine l := by
  rw [fine_cons]
  exact and_iff_right ⟨fun h => absurd h Nat.one_ne_zero, fun _ => Nat.le_refl 1⟩

theorem fine_last {k : Nat} :
    s.Fine [(v, k + 1)] ↔ (0 < k → (s.accounts v.address).isBanned = false) := by
  rw [fine_cons]
  cases hb : (s.accounts v.address).isBanned with
  | false | true => simp [Fine]

theorem fine_visits_iff (s : StateDB) (k : Nat) (vs : List Validator) :
    s.Fine (visits s.drops k vs) ↔ s.Undisturbed vs ∧
      (0 < k ∨ s.Passes vs → ∀ v ∈ vs.getLast?, (s.accounts v.address).isBanned = false) := by
  induction vs using List.twoStepInduction generalizing k with
  | nil => simp [visits, Fine, Undisturbed]
  | singleton =>
    rw [visits, fine_last, or_iff_left (not_passes_of_length (by simp)),
      and_iff_right (undisturbed_of_length (by simp))]
    simp
  | cons_cons v w l ih ih' =>
    cases hd : s.drops v with
    | false =>
      rw [visits_of_not_drops hd, fine_one, ih' w, passes_of_not_drops hd, undisturbed_of_not_drops hd,
        List.getLast?_cons_cons]
    | true =>
      cases l with
      | nil =>
        rw [visits, fine_one, fine_last, or_iff_left (not_passes_of_length (by simp)),
          and_iff_right (undisturbed_of_length (by simp))]
        simp
      | cons u l =>
        rw [visits, if_pos hd, fine_one, fine_cons, ih (k + 1), undisturbed_cons_cons_cons,
          passes_cons_cons_cons, List.getLast?_cons_cons, List.getLast?_cons_cons]
        have hk : 0 < k + 1 ∨ s.Passes (u :: l) := .inl (Nat.succ_pos k)
        have hp : 0 < k ∨ s.drops v = true ∨ s.Passes (w :: u :: l) := .inr (.inl hd)
        rw [imp_iff_right hk, imp_iff_right hp, imp_iff_right rfl, imp_iff_right hd, and_iff_left
          fun _ => Nat.zero_le 1]
        -- a validator that is settled does not pass over anybody
        have hsettled (hw : s.settled w = true) :
            s.Undisturbed (w :: u :: l) ↔ s.Undisturbed (u :: l) :=
          undisturbed_of_not_drops (settled_iff.1 hw).1
        constructor
        · rintro ⟨hw, hrest, hlast⟩
          exact ⟨⟨hw, (hsettled hw).2 hrest⟩, hlast⟩
        · rintro ⟨⟨hw, hrest⟩, hlast⟩
          exact ⟨hw, (hsettled hw).1 hrest, hlast⟩

end StateDB

/-- **Each validator is processed once, if and only if** nobody who is passed over needed a visit,
and, if somebody is passed over, the last validator is not banned. -/
theorem validatorLoop_effect_iff (s : StateDB) (vs : List Validator)
    (hnodup : (vs.map (·.address)).Nodup) :
    (validatorLoop s vs).effect = processEach s vs ↔
      (∀ i, ∀ _ : i + 2 < vs.length, s.drops vs[i] = true → s.settled vs[i + 1] = true) ∧
      ((∃ i, ∃ _ : i + 2 < vs.length, s.drops vs[i] = true) →
        ∀ v ∈ vs.getLast?, (s.accounts v.address).isBanned = false) := by
  have hfirst : 0 < 0 ∨ s.Passes vs ↔ s.Passes vs := or_iff_right (Nat.lt_irrefl 0)
  rw [validatorLoop_effect_iff_fine s hnodup, fine_visits_iff, hfirst]
  rfl

/-- Two addresses are banned, and two have a deposit. -/
def twoBanned : StateDB :=
  ((((StateDB.new.setBanned [1] true).setBanned [2] true).setBannedTime [2] 2)
    |>.add (.depositBalance [3]) 5).add (.depositBalance [4]) 7

theorem validatorLoop_effect_twoBanned :
    (validatorLoop twoBanned [⟨[1], [], 1, 0⟩, ⟨[3], [], 5, 0⟩, ⟨[4], [], 1, 0⟩]).effect =
      processEach twoBanned [⟨[1], [], 1, 0⟩, ⟨[3], [], 5, 0⟩, ⟨[4], [], 1, 0⟩] := by
  refine (validatorLoop_effect_iff twoBanned _ (by decide)).2 ⟨fun i hi _ => ?_, fun _ v hv => ?_⟩
  · obtain rfl : i = 0 := by
      simp only [List.length_cons, List.length_nil] at hi
      omega
    show twoBanned.settled ⟨[3], [], 5, 0⟩ = true
    decide +kernel
  · obtain rfl : ⟨[4], [], 1, 0⟩ = v := Option.some.inj hv
    decide +kernel

/-- A banned validator behind another one is passed over. -/
theorem validatorLoop_effect_ne :
    (validatorLoop twoBanned [⟨[1], [], 1, 0⟩, ⟨[2], [], 1, 0⟩, ⟨[3], [], 5, 0⟩]).effect ≠
      processEach twoBanned [⟨[1], [], 1, 0⟩, ⟨[2], [], 1, 0⟩, ⟨[3], [], 5, 0⟩] := by
  intro h
  have hvalidators := congrArg LoopEffect.validators h
  revert hvalidators
  decide +kernel

end NeatPoS
