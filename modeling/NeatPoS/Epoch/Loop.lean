import NeatPoS.Core.Postings
import NeatPoS.Epoch.Switch

/-!
# The loop over the validators

`ShouldEnterNewEpoch` ranges over `newValidators.Validators` and calls `newValidators.Remove`
inside.  The range has fixed the slice, but not the array behind it, and `Remove` moves the elements
of the array one place to the left.  So the next round does not see the validator that has moved
into the place of the removed one, and the last rounds see what is left at the end of the array,
which is always the last validator.

`visits` says in closed form how often each validator is visited, and `validatorLoop_swept` that the
loop does to each validator what that many visits do.  The proof follows the array from round to
round: `Sweep` is its shape as long as there are validators to come, `Tail` the shape when only the
last one is left.
-/

set_option autoImplicit false

namespace NeatPoS

variable {p : Nat} {js : List Nat} {fin : LoopState} {l : List (Validator × Nat)}

namespace StateDB

/-! ## One visit -/

section Bans

variable (s : StateDB) (a : Address)

theorem serveBan_eq :
    s.serveBan a = if 0 < (s.accounts a).bannedTime then
      (s.getOrNewStateObject a).setBannedTime a ((s.accounts a).bannedTime - 1)
    else s.getOrNewStateObject a :=
  rfl

theorem serveBan_posts : Posts s (s.serveBan a) 0 := by
  rw [serveBan_eq]
  split
  · exact (getOrNewStateObject_posts s a).zero_trans (setBannedTime_posts _ a _)
  · exact getOrNewStateObject_posts s a

theorem deleteCandidate_posts : Posts s (s.deleteCandidate a) 0 :=
  ⟨(add_zero _).symm, rfl, fun _ => rfl, Finset.Subset.refl _, fun _ h => absurd rfl h⟩

theorem dropIfBanned_eq :
    s.dropIfBanned a = if (s.accounts a).isBanned then
      ((s.getOrNewStateObject a).deleteCandidate a).serveBan a
    else s.getOrNewStateObject a :=
  rfl

theorem dropIfBanned_posts : Posts s (s.dropIfBanned a) 0 := by
  rw [dropIfBanned_eq]
  split
  · exact ((getOrNewStateObject_posts s a).zero_trans (deleteCandidate_posts _ a)).zero_trans
      (serveBan_posts _ a)
  · exact getOrNewStateObject_posts s a

end Bans

theorem foldl_dropIfBanned_posts (l : List Address) (s : StateDB) :
    Posts s (l.foldl dropIfBanned s) 0 := by
  induction l generalizing s with
  | nil => exact Posts.refl s
  | cons a _ ih => exact (dropIfBanned_posts s a).zero_trans (ih _)

/-- The loop removes the validator: it is banned, or has no stake. -/
def drops (s : StateDB) (v : Validator) : Bool :=
  (s.accounts v.address).isBanned || decide (s.stake v.address = 0)

/-- The validator with the power of its stake. -/
def powered (s : StateDB) (v : Validator) : Validator := { v with votingPower := s.stake v.address }

/-- What becomes of a validator that is visited so many times. -/
def outcome (s : StateDB) (v : Validator × Nat) : Option Validator :=
  if v.2 = 0 then some v.1 else if s.drops v.1 then none else some (s.powered v.1)

/-- The refunds of a list of visits. -/
def banRefunds (s : StateDB) (l : List Validator) : List RefundValidatorAmount :=
  (l.filter fun v => (s.accounts v.address).isBanned).map fun v =>
    ⟨v.address, some v.votingPower, true⟩

section Unposted

variable {s s' : StateDB} (h : Posts s s' 0)
include h

theorem Posts.stake (a : Address) : s'.stake a = s.stake a := by
  simp only [StateDB.stake, getTotalProxiedBalance, getTotalDepositProxiedBalance,
    getDepositBalance, h.amounts, add_zero]

theorem Posts.drops (v : Validator) : s'.drops v = s.drops v := by
  rw [StateDB.drops, StateDB.drops, h.stake, h.isBanned]

theorem Posts.powered (v : Validator) : s'.powered v = s.powered v := by
  rw [StateDB.powered, StateDB.powered, h.stake]

theorem Posts.banRefunds (l : List Validator) : s'.banRefunds l = s.banRefunds l := by
  simp only [StateDB.banRefunds, h.isBanned]

theorem Posts.outcome (v : Validator × Nat) : s'.outcome v = s.outcome v := by
  rw [StateDB.outcome, StateDB.outcome, h.drops, h.powered]

end Unposted

end StateDB

/-- How often the loop visits each validator, if `k` have been passed over before.  A validator
behind one that is removed is passed over, and the last one is visited in its place at the end. -/
def visits (drops : Validator → Bool) : Nat → List Validator → List (Validator × Nat)
  | k, v :: w :: u :: l =>
    if drops v then (v, 1) :: (w, 0) :: visits drops (k + 1) (u :: l)
    else (v, 1) :: visits drops k (w :: u :: l)
  | k, [v, w] => [(v, 1), (w, k + 1)]
  | k, [v] => [(v, k + 1)]
  | _, [] => []

theorem visits_of_not_drops {drops : Validator → Bool} {k : Nat} {v w : Validator}
    {l : List Validator} (hd : drops v = false) :
    visits drops k (v :: w :: l) = (v, 1) :: visits drops k (w :: l) := by
  cases l with
  | nil => rfl
  | cons => rw [visits, if_neg (by simp [hd])]

theorem visits_map_fst (drops : Validator → Bool) (k : Nat) (vs : List Validator) :
    (visits drops k vs).map Prod.fst = vs := by
  induction vs using List.twoStepInduction generalizing k with
  | nil | singleton => rfl
  | cons_cons _ _ l ih ih' =>
    cases l with
    | nil => rfl
    | cons =>
      rw [visits]
      split
      · rw [List.map_cons, List.map_cons, ih]
      · rw [List.map_cons, ih']

/-- The visits, one by one. -/
def visited (l : List (Validator × Nat)) : List Validator :=
  l.flatMap fun v => List.replicate v.2 v.1

namespace LoopState

open StateDB

variable {st : LoopState} {v : Validator}

theorem remove_withDb (st : LoopState) (db : StateDB) (a : Address) :
    { st with db }.remove a = { st.remove a with db } := by
  simp only [remove]
  split <;> rfl

@[simp] theorem remove_db (st : LoopState) (a : Address) : (st.remove a).db = st.db := by
  rw [remove]
  split <;> rfl

theorem visitValidator_of_banned (p : Nat) (hb : (st.db.accounts v.address).isBanned = true) :
    st.visitValidator p v =
      { st.remove v.address with
        db := st.db.dropIfBanned v.address
        refunds := (st.remove v.address).refunds ++ [⟨v.address, some v.votingPower, true⟩] } := by
  rw [dropIfBanned_eq, if_pos hb]
  simp only [visitValidator, getBanned, hb, remove_withDb]
  rfl

theorem visitValidator_of_idle (p : Nat) (hb : (st.db.accounts v.address).isBanned = false)
    (hs : st.db.stake v.address = 0) :
    st.visitValidator p v = { st.remove v.address with db := st.db.dropIfBanned v.address } := by
  have hs' := ((getOrNewStateObject_posts st.db v.address).stake v.address).trans hs
  rw [dropIfBanned_eq, if_neg (by simp [hb])]
  simp only [visitValidator, getBanned, hb, remove_withDb, hs']
  rfl

theorem visitValidator_of_stake (p : Nat) (hb : (st.db.accounts v.address).isBanned = false)
    (hs : st.db.stake v.address ≠ 0) :
    st.visitValidator p v =
      { st with
        db := st.db.dropIfBanned v.address
        heap := st.heap.set p (st.db.powered v) } := by
  have hs' := (getOrNewStateObject_posts st.db v.address).stake v.address
  rw [dropIfBanned_eq, if_neg (by simp [hb])]
  simp only [visitValidator, getBanned, hb, hs', if_neg hs]
  rfl

/-- A visit to a validator that is removed. -/
theorem visitValidator_of_drops (p : Nat) (hd : st.db.drops v = true) :
    st.visitValidator p v =
      { st.remove v.address with
        db := st.db.dropIfBanned v.address
        refunds := (st.remove v.address).refunds ++ st.db.banRefunds [v] } := by
  by_cases hb : (st.db.accounts v.address).isBanned = true
  · rw [visitValidator_of_banned p hb]
    simp only [banRefunds, List.filter_cons, hb, if_true, List.filter_nil, List.map_cons,
      List.map_nil]
  · rw [Bool.not_eq_true] at hb
    have hs : st.db.stake v.address = 0 := by simpa [drops, hb] using hd
    rw [visitValidator_of_idle p hb hs]
    simp [banRefunds, hb]

/-- A visit to a validator that stays. -/
theorem visitValidator_of_not_drops (p : Nat) (hd : st.db.drops v = false) :
    st.visitValidator p v =
      { st with
        db := st.db.dropIfBanned v.address
        heap := st.heap.set p (st.db.powered v) } := by
  simp only [drops, Bool.or_eq_false_iff, decide_eq_false_iff_not] at hd
  exact visitValidator_of_stake p hd.1 hd.2

/-- `Remove`, at the first of the slots that point at the address. -/
theorem remove_eq {K R : List Nat} {a : Address} (hslots : st.slots.take st.size = K ++ p :: R)
    (hK : ∀ q ∈ K, (st.heap[q]?).map (·.address) ≠ some a)
    (hp : (st.heap[p]?).map (·.address) = some a) :
    st.remove a =
      { st with slots := K ++ R ++ st.slots.drop (st.size - 1), size := st.size - 1 } := by
  have hidx : (st.slots.take st.size).findIdx?
      (fun p => (st.heap[p]?.map (·.address)) == some a) = some K.length := by
    have hnone : K.findIdx? (fun p => (st.heap[p]?.map (·.address)) == some a) = none := by
      rw [List.findIdx?_eq_none_iff]
      intro q hq
      simpa using hK q hq
    rw [hslots, List.findIdx?_append, hnone, List.findIdx?_cons, hp]
    simp
  have hlen : K.length ≤ st.size := by
    have h := congrArg List.length hslots
    simp only [List.length_take, List.length_append, List.length_cons] at h
    omega
  have htake : st.slots.take K.length = K := by
    have h := congrArg (List.take K.length) hslots
    rwa [List.take_take, Nat.min_eq_left hlen, List.take_left' rfl] at h
  have hdrop : (st.slots.take st.size).drop (K.length + 1) = R := by
    rw [hslots, ← List.drop_drop, List.drop_left' rfl]
    rfl
  rw [remove, hidx]
  simp only [htake, hdrop]

/-- `Remove`, when no slot points at the address. -/
theorem remove_of_not_mem {a : Address}
    (h : ∀ q ∈ st.slots.take st.size, (st.heap[q]?).map (·.address) ≠ some a) :
    st.remove a = st := by
  have hidx : (st.slots.take st.size).findIdx?
      (fun p => (st.heap[p]?.map (·.address)) == some a) = none := by
    rw [List.findIdx?_eq_none_iff]
    intro q hq
    simpa using h q hq
  rw [remove, hidx]

theorem visit_eq {j : Nat} (hj : st.slots[j]? = some p) (hp : st.heap[p]? = some v) :
    st.visit j = st.visitValidator p v := by
  rw [visit, hj]
  dsimp only
  rw [hp]

/-! ## The last validator -/

/-- Only the last slots are left to be visited, and all of them point at the same validator. -/
structure Tail (st : LoopState) (K : List Nat) (q r : Nat) (v : Validator) : Prop where
  slots : st.slots = K ++ List.replicate (r + 1) q
  size : st.size = K.length + 1 ∨ st.size = K.length
  heap : st.heap[q]? = some v
  other : ∀ p ∈ K, (st.heap[p]?).map (·.address) ≠ some v.address

section Tail

variable {K : List Nat} {q r j : Nat}

variable (h : Tail st K q r v)
include h

theorem Tail.visit_eq (hj : K.length ≤ j) (hj' : j ≤ K.length + r) :
    st.visit j = st.visitValidator q v := by
  refine LoopState.visit_eq ?_ h.heap
  rw [h.slots, List.getElem?_append_right hj, List.getElem?_replicate, if_pos (by omega)]

theorem Tail.visit_of_drops (hd : st.db.drops v = true) (hj : K.length ≤ j)
    (hj' : j ≤ K.length + r) :
    st.visit j =
      { st with
        size := K.length
        db := st.db.dropIfBanned v.address
        refunds := st.refunds ++ st.db.banRefunds [v] } := by
  have hremove : st.remove v.address = { st with size := K.length } := by
    rcases h.size with hsize | hsize
    · have htake : st.slots.take st.size = K ++ q :: [] := by
        rw [h.slots, hsize, ← List.singleton_append, List.replicate_succ]
        simp [List.take_append]
      rw [remove_eq htake h.other (by rw [h.heap]; rfl), hsize, h.slots, List.append_nil,
        Nat.add_sub_cancel, List.drop_left' rfl]
    · have htake : st.slots.take st.size = K := by rw [h.slots, hsize, List.take_left' rfl]
      rw [remove_of_not_mem (by rw [htake]; exact h.other), ← hsize]
  rw [h.visit_eq hj hj', visitValidator_of_drops q hd, hremove]

theorem Tail.visit_of_not_drops (hd : st.db.drops v = false)
    (hj : K.length ≤ j) (hj' : j ≤ K.length + r) :
    st.visit j =
      { st with
        db := st.db.dropIfBanned v.address
        heap := st.heap.set q (st.db.powered v) } := by
  rw [h.visit_eq hj hj', visitValidator_of_not_drops q hd]

/-- A validator that is removed, however often it is visited. -/
theorem Tail.foldl_of_drops (hd : st.db.drops v = true)
    (hjs : ∀ j ∈ js, K.length ≤ j ∧ j ≤ K.length + r) :
    js.foldl visit st =
      { st with
        size := if js.isEmpty then st.size else K.length
        db := (List.replicate js.length v.address).foldl dropIfBanned st.db
        refunds := st.refunds ++ st.db.banRefunds (List.replicate js.length v) } := by
  induction js generalizing st with
  | nil => simp [banRefunds]
  | cons j js ih =>
    obtain ⟨hj, hj'⟩ := hjs j List.mem_cons_self
    have hposts := dropIfBanned_posts st.db v.address
    have htail : Tail
        { st with
          size := K.length
          db := st.db.dropIfBanned v.address
          refunds := st.refunds ++ st.db.banRefunds [v] } K q r v :=
      ⟨h.slots, .inr rfl, h.heap, h.other⟩
    rw [List.foldl_cons, h.visit_of_drops hd hj hj', ih htail ((hposts.drops v).trans hd)
      fun i hi => hjs i (List.mem_cons_of_mem j hi)]
    have hrefunds : st.db.banRefunds (List.replicate (js.length + 1) v) =
        st.db.banRefunds [v] ++ st.db.banRefunds (List.replicate js.length v) := by
      rw [List.replicate_succ, ← List.singleton_append, banRefunds, List.filter_append,
        List.map_append]
      rfl
    simp only [ite_self, hposts.banRefunds, List.length_cons, List.replicate_succ, List.foldl_cons,
      List.isEmpty_cons, Bool.false_eq_true, if_false]
    rw [← List.replicate_succ, hrefunds, List.append_assoc]

/-- A validator that stays, however often it is visited. -/
theorem Tail.foldl_of_not_drops (hd : st.db.drops v = false)
    (hjs : ∀ j ∈ js, K.length ≤ j ∧ j ≤ K.length + r) :
    js.foldl visit st =
      { st with
        db := (List.replicate js.length v.address).foldl dropIfBanned st.db
        heap := if js.isEmpty then st.heap else st.heap.set q (st.db.powered v) } := by
  induction js generalizing st v with
  | nil => simp
  | cons j _ ih =>
    obtain ⟨hj, hj'⟩ := hjs j List.mem_cons_self
    have hposts := dropIfBanned_posts st.db v.address
    have hq : q < st.heap.length := (List.getElem?_eq_some_iff.1 h.heap).1
    have htail : Tail
        { st with
          db := st.db.dropIfBanned v.address
          heap := st.heap.set q (st.db.powered v) } K q r (st.db.powered v) := by
      refine ⟨h.slots, h.size, by simp [hq], fun p hp => ?_⟩
      have hne : q ≠ p := by
        rintro rfl
        exact h.other q hp (by rw [h.heap]; rfl)
      dsimp only
      rw [List.getElem?_set_ne hne]
      exact h.other p hp
    rw [List.foldl_cons, h.visit_of_not_drops hd hj hj', ih htail ((hposts.drops _).trans hd)
      fun i hi => hjs i (List.mem_cons_of_mem j hi)]
    have hpowered : (st.db.dropIfBanned v.address).powered (st.db.powered v) = st.db.powered v :=
      hposts.powered _
    simp only [hpowered, List.set_set, ite_self, List.length_cons, List.replicate_succ,
      List.foldl_cons, List.isEmpty_cons, Bool.false_eq_true, if_false]
    rfl

/-- **The visits to the last validator.** -/
theorem Tail.run (hsize : st.size = K.length + 1)
    (hne : js.length ≠ 0) (hjs : ∀ j ∈ js, K.length ≤ j ∧ j ≤ K.length + r) :
    (js.foldl visit st).db = (List.replicate js.length v.address).foldl dropIfBanned st.db ∧
    (js.foldl visit st).refunds = st.refunds ++ st.db.banRefunds (List.replicate js.length v) ∧
    (js.foldl visit st).validators =
      K.filterMap (st.heap[·]?) ++ (st.db.outcome (v, js.length)).toList := by
  have hempty : js.isEmpty = false := by
    rw [List.isEmpty_eq_false_iff]
    rintro rfl
    exact hne rfl
  by_cases hd : st.db.drops v = true
  · rw [h.foldl_of_drops hd hjs, validators, outcome, if_neg hne, if_pos hd]
    refine ⟨rfl, rfl, ?_⟩
    simp only [hempty, Bool.false_eq_true, if_false, h.slots, List.take_left' rfl,
      Option.toList_none, List.append_nil]
  · have hd' : st.db.drops v = false := by simpa using hd
    have hq : q < st.heap.length := (List.getElem?_eq_some_iff.1 h.heap).1
    rw [h.foldl_of_not_drops hd' hjs, validators, outcome, if_neg hne, if_neg hd]
    refine ⟨rfl, ?_, ?_⟩
    · have hb : (st.db.accounts v.address).isBanned = false := by
        simp only [drops, Bool.or_eq_false_iff] at hd'
        exact hd'.1
      have hnone : st.db.banRefunds (List.replicate js.length v) = [] := by
        rw [banRefunds, List.map_eq_nil_iff, List.filter_eq_nil_iff]
        intro w hw
        rw [List.eq_of_mem_replicate hw, hb]
        exact Bool.false_ne_true
      rw [hnone, List.append_nil]
    · have htake : st.slots.take st.size = K ++ [q] := by
        rw [h.slots, hsize, List.replicate_succ]
        simp [List.take_append]
      have hlast : (st.heap.set q (st.db.powered v))[q]? = some (st.db.powered v) := by simp [hq]
      have hK : K.filterMap ((st.heap.set q (st.db.powered v))[·]?) =
        K.filterMap (st.heap[·]?) := by
        refine List.filterMap_congr fun p hp => List.getElem?_set_ne ?_
        rintro rfl
        exact h.other q hp (by rw [h.heap]; rfl)
      simp only [hempty, Bool.false_eq_true, if_false, htake, List.filterMap_append, hK,
        List.filterMap_cons, hlast, List.filterMap_nil, Option.toList_some]

end Tail

/-! ## All rounds -/

/-- The loop is at validator `m`, which slot `K.length` points at; `k` validators have been
removed. -/
structure Sweep (s : StateDB) (vs : List Validator) (st : LoopState) (K : List Nat) (m k : Nat) :
    Prop where
  db : Posts s st.db 0
  address : ∀ p : Nat, (st.heap[p]?).map (·.address) = (vs[p]?).map (·.address)
  unvisited : ∀ p, m ≤ p → st.heap[p]? = vs[p]?
  slots : st.slots = K ++ List.range' m (vs.length - m) ++ List.replicate k (vs.length - 1)
  size : st.size = K.length + (vs.length - m)
  rounds : K.length + k = m
  passed : ∀ p ∈ K, p < m

section Sweep

variable {s : StateDB} {vs : List Validator} {K : List Nat} {m k : Nat}

variable (h : Sweep s vs st K m k)
include h

theorem Sweep.getElem_slots (hm : m < vs.length) : st.slots[K.length]? = some m := by
  rw [h.slots, List.append_assoc, List.getElem?_append_right (Nat.le_refl _), Nat.sub_self,
    List.getElem?_append_left (by rw [List.length_range']; omega), List.getElem?_range' (by omega)]
  rfl

theorem Sweep.getElem_heap (hm : m ≤ p) (hp : p < vs.length) : st.heap[p]? = some vs[p] := by
  rw [h.unvisited p hm, List.getElem?_eq_getElem hp]

/-- The other slots point at other addresses. -/
theorem Sweep.address_ne (hnodup : (vs.map (·.address)).Nodup) {q : Nat}
    (hp : p < vs.length) (hq : q ≠ p) : (st.heap[q]?).map (·.address) ≠ some vs[p].address := by
  intro heq
  rw [h.address, ← List.getElem?_map] at heq
  have hp' : (vs.map (·.address))[p]? = some vs[p].address := by
    rw [List.getElem?_map, List.getElem?_eq_getElem hp]
    rfl
  rw [← hp', eq_comm, List.getElem?_inj (by rwa [List.length_map]) hnodup] at heq
  exact hq heq.symm

theorem Sweep.passed_concat {n : Nat} (hn : m ≤ n) : ∀ p ∈ K ++ [n], p < n + 1 := by
  intro p hp
  rcases List.mem_append.1 hp with hp | hp
  · have := h.passed p hp
    omega
  · rw [List.mem_singleton.1 hp]
    omega

theorem Sweep.visit_eq (hm : m < vs.length) : st.visit K.length = st.visitValidator m vs[m] :=
  LoopState.visit_eq (h.getElem_slots hm) (h.getElem_heap (Nat.le_refl m) hm)

/-- The round of a validator that stays. -/
theorem Sweep.visit_of_not_drops (hm : m < vs.length) (hd : s.drops vs[m] = false) :
    Sweep s vs (st.visit K.length) (K ++ [m]) (m + 1) k ∧
      (st.visit K.length).db = st.db.dropIfBanned vs[m].address ∧
      (st.visit K.length).refunds = st.refunds ∧
      (st.visit K.length).heap = st.heap.set m (s.powered vs[m]) := by
  have hlt : m < st.heap.length :=
    (List.getElem?_eq_some_iff.1 (h.getElem_heap (Nat.le_refl m) hm)).1
  rw [h.visit_eq hm, visitValidator_of_not_drops m ((h.db.drops _).trans hd), h.db.powered]
  refine ⟨⟨h.db.zero_trans (dropIfBanned_posts _ _), fun p => ?_, fun p hp => ?_, ?_, ?_, ?_, ?_⟩,
    rfl, rfl, rfl⟩
  · by_cases hp : p = m
    · subst hp
      simp [hlt, hm, powered]
    · dsimp only
      rw [List.getElem?_set_ne (Ne.symm hp)]
      exact h.address p
  · dsimp only
    rw [List.getElem?_set_ne (by omega)]
    exact h.unvisited p (by omega)
  · obtain ⟨d, hd'⟩ : ∃ d, vs.length - m = d + 1 := ⟨vs.length - m - 1, by omega⟩
    have hd'' : vs.length - (m + 1) = d := by omega
    dsimp only
    rw [h.slots, hd', hd'', List.range'_succ]
    simp
  · dsimp only
    rw [h.size, List.length_append, List.length_singleton]
    omega
  · rw [List.length_append, List.length_singleton]
    have := h.rounds
    omega
  · exact h.passed_concat (by omega)

/-- The round of a validator that is removed.  The one behind it is passed over. -/
theorem Sweep.visit_of_drops (hnodup : (vs.map (·.address)).Nodup)
    (hm : m + 1 < vs.length) (hd : s.drops vs[m] = true) :
    Sweep s vs (st.visit K.length) (K ++ [m + 1]) (m + 2) (k + 1) ∧
      (st.visit K.length).db = st.db.dropIfBanned vs[m].address ∧
      (st.visit K.length).refunds = st.refunds ++ s.banRefunds [vs[m]] ∧
      (st.visit K.length).heap = st.heap := by
  obtain ⟨d, hd'⟩ : ∃ d, vs.length - m = d + 2 := ⟨vs.length - m - 2, by omega⟩
  have hhead : List.range' m (d + 2) = m :: (m + 1) :: List.range' (m + 2) d := by
    rw [List.range'_succ, List.range'_succ]
  have hlast : List.range' m (d + 2) = List.range' m (d + 1) ++ [vs.length - 1] := by
    rw [List.range'_concat]
    congr 2
    omega
  have hslots : st.slots.take st.size = K ++ m :: ((m + 1) :: List.range' (m + 2) d) := by
    rw [h.slots, h.size, hd', List.take_left' (by simp), hhead]
  have hend : st.slots.drop (st.size - 1) = List.replicate (k + 1) (vs.length - 1) := by
    rw [h.slots, hd', hlast, ← List.append_assoc, List.append_assoc (K ++ _), List.drop_left',
      List.singleton_append, List.replicate_succ]
    rw [List.length_append, List.length_range', h.size]
    omega
  have hremove := remove_eq hslots
    (fun p hp => h.address_ne hnodup (by omega) (Nat.ne_of_lt (h.passed p hp)))
    (by rw [h.getElem_heap (Nat.le_refl m) (by omega)]; rfl)
  rw [h.visit_eq (by omega), visitValidator_of_drops m ((h.db.drops _).trans hd), h.db.banRefunds,
    hremove, hend]
  refine ⟨⟨h.db.zero_trans (dropIfBanned_posts _ _), h.address,
    fun p hp => h.unvisited p (by omega), ?_, ?_, ?_, ?_⟩, rfl, rfl, rfl⟩
  · have hd'' : vs.length - (m + 2) = d := by omega
    rw [hd'']
    simp
  · dsimp only
    rw [h.size, List.length_append, List.length_singleton]
    omega
  · rw [List.length_append, List.length_singleton]
    have := h.rounds
    omega
  · exact h.passed_concat (by omega)

omit h in
/-- What the loop has done when it is over. -/
structure Swept (s : StateDB) (st fin : LoopState) (K : List Nat) (l : List (Validator × Nat)) :
    Prop where
  db : fin.db = ((visited l).map (·.address)).foldl dropIfBanned st.db
  refunds : fin.refunds = st.refunds ++ s.banRefunds (visited l)
  validators : fin.validators = K.filterMap (st.heap[·]?) ++ l.filterMap s.outcome

omit h in
/-- From the visits to the last validator. -/
theorem Swept.of_tail {q r : Nat} (hdb : Posts s st.db 0) (h : Tail st K q r v)
    (hsize : st.size = K.length + 1) (hlen : js.length = k + 1)
    (hjs : ∀ j ∈ js, K.length ≤ j ∧ j ≤ K.length + r) :
    Swept s st (js.foldl visit st) K [(v, k + 1)] := by
  obtain ⟨hfin, hrefunds, hvalidators⟩ := h.run hsize (by omega) hjs
  rw [hlen] at hfin hrefunds hvalidators
  have hvisited : visited [(v, k + 1)] = List.replicate (k + 1) v := by simp [visited]
  refine ⟨?_, ?_, ?_⟩
  · rw [hvisited, hfin, List.map_replicate]
  · rw [hvisited, hrefunds, hdb.banRefunds]
  · rw [hvalidators, hdb.outcome, List.filterMap_cons, List.filterMap_nil]
    cases s.outcome (v, k + 1) <;> rfl

omit h in
/-- A round, and those after it. -/
theorem Swept.append {st' : LoopState} {K' : List Nat} (l₀ : List (Validator × Nat))
    (hdb : st'.db = ((visited l₀).map (·.address)).foldl dropIfBanned st.db)
    (hrefunds : st'.refunds = st.refunds ++ s.banRefunds (visited l₀))
    (hK : K'.filterMap (st'.heap[·]?) = K.filterMap (st.heap[·]?) ++ l₀.filterMap s.outcome)
    (h : Swept s st' fin K' l) : Swept s st fin K (l₀ ++ l) := by
  have hvisited : visited (l₀ ++ l) = visited l₀ ++ visited l := List.flatMap_append
  refine ⟨?_, ?_, ?_⟩
  · rw [h.db, hdb, hvisited, List.map_append, List.foldl_append]
  · rw [h.refunds, hrefunds, hvisited, List.append_assoc, banRefunds, banRefunds, banRefunds,
      List.filter_append, List.map_append]
  · rw [h.validators, hK, List.filterMap_append, List.append_assoc]

/-- The round of a validator that stays, and those after it. -/
theorem Sweep.swept_of_not_drops (hm : m < vs.length) (hd : s.drops vs[m] = false)
    (hrest : Swept s (st.visit K.length) fin (K ++ [m]) l) :
    Swept s st fin K ((vs[m], 1) :: l) := by
  obtain ⟨-, hdb, hrefunds, hheap⟩ := h.visit_of_not_drops hm hd
  have hlt : m < st.heap.length :=
    (List.getElem?_eq_some_iff.1 (h.getElem_heap (Nat.le_refl m) hm)).1
  refine Swept.append [(vs[m], 1)] hdb ?_ ?_ hrest
  · have hb : (s.accounts vs[m].address).isBanned = false := by
      simp only [drops, Bool.or_eq_false_iff] at hd
      exact hd.1
    rw [hrefunds]
    simp [visited, banRefunds, hb]
  · have hK : K.filterMap ((st.heap.set m (s.powered vs[m]))[·]?) = K.filterMap (st.heap[·]?) :=
      List.filterMap_congr fun p hp => List.getElem?_set_ne (Nat.ne_of_gt (h.passed p hp))
    rw [hheap, List.filterMap_append, hK]
    simp [hlt, outcome, hd]

/-- The round of a validator that is removed. -/
theorem Sweep.swept_of_drops (hnodup : (vs.map (·.address)).Nodup) (hm : m + 1 < vs.length)
    (hd : s.drops vs[m] = true) (hrest : Swept s (st.visit K.length) fin K l) :
    Swept s st fin K ((vs[m], 1) :: l) := by
  obtain ⟨-, hdb, hrefunds, hheap⟩ := h.visit_of_drops hnodup hm hd
  refine Swept.append [(vs[m], 1)] hdb hrefunds ?_ hrest
  rw [hheap]
  simp [outcome, hd]

omit h in
/-- A validator that is passed over. -/
theorem Swept.pass (hp : st.heap[p]? = some v)
    (hrest : Swept s st fin (K ++ [p]) l) : Swept s st fin K ((v, 0) :: l) := by
  refine Swept.append [(v, 0)] rfl ?_ ?_ hrest
  · simp [visited, banRefunds]
  · rw [List.filterMap_append]
    simp [hp, outcome]

/-- The loop has come to the last validator. -/
theorem Sweep.tail (hnodup : (vs.map (·.address)).Nodup)
    (hm : m + 1 = vs.length) : Tail st K m k vs[m] ∧ st.size = K.length + 1 := by
  have hsize : st.size = K.length + 1 := by
    rw [h.size]
    omega
  refine ⟨⟨?_, .inl hsize, h.getElem_heap (Nat.le_refl m) (by omega), fun p hp => ?_⟩, hsize⟩
  · have hd : vs.length - m = 0 + 1 := by omega
    have hm' : vs.length - 1 = m := by omega
    rw [h.slots, hd, hm', List.range'_succ, List.replicate_succ]
    simp
  · exact h.address_ne hnodup (by omega) (Nat.ne_of_lt (h.passed p hp))

/-- The last validator but one has been removed.  The last one is where it was, too. -/
theorem Sweep.tail_of_drops (hnodup : (vs.map (·.address)).Nodup)
    (hm : m + 2 = vs.length) (hd : s.drops vs[m] = true) :
    Tail (st.visit K.length) K (m + 1) (k + 1) vs[m + 1] ∧
      (st.visit K.length).size = K.length + 1 := by
  obtain ⟨hnext, -, -, hheap⟩ := h.visit_of_drops hnodup (by omega) hd
  have hsize : (st.visit K.length).size = K.length + 1 := by
    rw [hnext.size, List.length_append, List.length_singleton]
    omega
  refine ⟨⟨?_, .inl hsize, ?_, fun p hp => ?_⟩, hsize⟩
  · have hd' : vs.length - (m + 2) = 0 := by omega
    have hm' : vs.length - 1 = m + 1 := by omega
    rw [hnext.slots, hd', hm', List.range'_zero, List.replicate_succ]
    simp [List.replicate_succ]
  · rw [hheap]
    exact h.getElem_heap (Nat.le_succ m) (by omega)
  · refine hnext.address_ne hnodup (by omega) ?_
    have := h.passed p hp
    omega

/-- **The loop, from any round on.** -/
theorem Sweep.run (hnodup : (vs.map (·.address)).Nodup) (hm : m < vs.length) :
    Swept s st ((List.range' K.length (vs.length - K.length)).foldl visit st) K
      (visits s.drops k (vs.drop m)) := by
  -- induction on the number of validators that are left
  obtain ⟨d, hd⟩ : ∃ d, vs.length - m = d := ⟨_, rfl⟩
  induction d using Nat.strong_induction_on generalizing st K m k with
  | _ d ih =>
    have hrounds := h.rounds
    rw [List.drop_eq_getElem_cons hm]
    by_cases hlast : m + 1 = vs.length
    · obtain ⟨htail, hsize⟩ := h.tail hnodup hlast
      rw [List.drop_of_length_le (Nat.le_of_eq hlast.symm), visits]
      refine Swept.of_tail h.db htail hsize ?_ fun j hj => ?_
      · rw [List.length_range']
        omega
      · rw [List.mem_range'_1] at hj
        omega
    · have hm' : m + 1 < vs.length := by omega
      have hhead : List.range' K.length (vs.length - K.length) =
          K.length :: List.range' (K.length + 1) (vs.length - (K.length + 1)) := by
        obtain ⟨e, he⟩ : ∃ e, vs.length - K.length = e + 1 := ⟨vs.length - K.length - 1, by omega⟩
        have he' : vs.length - (K.length + 1) = e := by omega
        rw [he, he', List.range'_succ]
      rw [List.drop_eq_getElem_cons hm', hhead, List.foldl_cons]
      cases hdrop : s.drops vs[m] with
      | false =>
        obtain ⟨hnext, -⟩ := h.visit_of_not_drops hm hdrop
        have hrest := ih (d - 1) (by omega) hnext hm' (by omega)
        rw [List.length_append, List.length_singleton, List.drop_eq_getElem_cons hm'] at hrest
        rw [visits_of_not_drops hdrop]
        exact h.swept_of_not_drops hm hdrop hrest
      | true =>
        obtain ⟨hnext, -, -, hheap⟩ := h.visit_of_drops hnodup hm' hdrop
        by_cases hlast' : m + 2 = vs.length
        · obtain ⟨htail, hsize⟩ := h.tail_of_drops hnodup hlast' hdrop
          rw [List.drop_of_length_le (Nat.le_of_eq hlast'.symm), visits]
          refine h.swept_of_drops hnodup hm' hdrop
            (Swept.of_tail hnext.db htail hsize ?_ fun j hj => ?_)
          · rw [List.length_range']
            omega
          · rw [List.mem_range'_1] at hj
            omega
        · have hm'' : m + 2 < vs.length := by omega
          have hrest := ih (d - 2) (by omega) hnext hm'' (by omega)
          rw [List.length_append, List.length_singleton] at hrest
          have hpass : (st.visit K.length).heap[m + 1]? = some vs[m + 1] := by
            rw [hheap]
            exact h.getElem_heap (Nat.le_succ m) hm'
          rw [List.drop_eq_getElem_cons hm'', visits, if_pos hdrop,
            ← List.drop_eq_getElem_cons hm'']
          exact h.swept_of_drops hnodup hm' hdrop (Swept.pass hpass hrest)

end Sweep

end LoopState

/-- **The loop over the validators.**  Each of them is visited as often as `visits` says. -/
theorem validatorLoop_swept (s : StateDB) {vs : List Validator}
    (hnodup : (vs.map (·.address)).Nodup) : (validatorLoop s vs).db =
      ((visited (visits s.drops 0 vs)).map (·.address)).foldl StateDB.dropIfBanned s ∧
    (validatorLoop s vs).refunds = s.banRefunds (visited (visits s.drops 0 vs)) ∧
    (validatorLoop s vs).validators = (visits s.drops 0 vs).filterMap s.outcome := by
  cases vs with
  | nil => exact ⟨rfl, rfl, rfl⟩
  | cons v vs =>
    have hstart : LoopState.Sweep s (v :: vs)
        ⟨s, v :: vs, List.range (v :: vs).length, (v :: vs).length, []⟩ [] 0 0 :=
      ⟨StateDB.Posts.refl s, fun _ => rfl, fun _ _ => rfl, by simp [List.range_eq_range'], by simp,
        rfl, fun p hp => absurd hp (List.not_mem_nil)⟩
    obtain ⟨hdb, hrefunds, hvalidators⟩ := hstart.run hnodup (by simp)
    rw [List.length_nil, Nat.sub_zero, ← List.range_eq_range'] at hdb hrefunds hvalidators
    exact ⟨hdb, hrefunds, hvalidators⟩

end NeatPoS
