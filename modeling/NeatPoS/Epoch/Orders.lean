import NeatPoS.Epoch.Switch

/-!
# The orders of the epoch switch

Votes are sorted by amount and then by address, validators by remaining epochs and then by power.
The first order is total, so that the outcome of the sort does not depend on the algorithm
(`SortSlice.sort_eq`); the second one leaves validators with the same power where the algorithm puts
them.  How many come before an element (`ahead`) is what the order decides: two sorts agree up to
the first tie (`SortSlice.take_eq`), and an element of a tie comes first in some sort
(`SortSlice.early`).

Both can be sorted by insertion, which makes a `Runtime` that one can evaluate.
-/

set_option autoImplicit false

namespace NeatPoS

theorem compareAddress_iff {a b : Bytes} : compareAddress a b = true ↔ b < a := by
  induction a generalizing b with
  | nil => cases b <;> simp [compareAddress]
  | cons x _ ih =>
    cases b with
    | nil => simp [compareAddress]
    | cons y =>
      rw [compareAddress, List.cons_lt_cons_iff]
      by_cases h : x = y
      · subst h
        simp [ih]
      · have h' : ¬ y = x := fun h' => h h'.symm
        simp [h, h']

/-- `sort.Slice` may sort by insertion. -/
def SortSlice.insertion {α : Type} (less : α → α → Bool)
    (htotal : ∀ a b, less a b = true → less b a = false)
    (htrans : ∀ a b c, less b a = false → less c b = false → less c a = false) : SortSlice less where
  sort := List.insertionSort fun a b => less b a = false
  perm := List.perm_insertionSort _
  sorted := by
    have : Std.Total fun a b => less b a = false := ⟨fun a b => by
      cases h : less b a with
      | false => exact Or.inl rfl
      | true => exact Or.inr (htotal b a h)⟩
    have : IsTrans α fun a b => less b a = false := ⟨htrans⟩
    exact List.pairwise_insertionSort _

theorem voteLess_asymm (v w : EpochValidatorVote) (h : voteLess v w = true) : voteLess w v = false := by
  rw [voteLess] at h ⊢
  by_cases heq : v.amount.getD 0 = w.amount.getD 0
  · rw [if_pos heq, compareAddress_iff] at h
    rw [if_pos heq.symm, ← Bool.not_eq_true, compareAddress_iff]
    exact List.lt_asymm h
  · rw [if_neg heq, decide_eq_true_eq] at h
    rw [if_neg (Ne.symm heq), decide_eq_false_iff_not]
    omega

theorem not_voteLess_iff {v w : EpochValidatorVote} :
    voteLess w v = false ↔ w.amount.getD 0 < v.amount.getD 0 ∨
      (w.amount.getD 0 = v.amount.getD 0 ∧ w.address ≤ v.address) := by
  rw [voteLess]
  by_cases heq : w.amount.getD 0 = v.amount.getD 0
  · rw [if_pos heq, ← Bool.not_eq_true, compareAddress_iff, List.not_lt]
    constructor
    · exact fun h => .inr ⟨heq, h⟩
    · rintro (h | h)
      · omega
      · exact h.2
  · rw [if_neg heq, decide_eq_false_iff_not]
    omega

theorem not_voteLess_trans (u v w : EpochValidatorVote) (h : voteLess v u = false)
    (h' : voteLess w v = false) : voteLess w u = false := by
  rw [not_voteLess_iff] at h h' ⊢
  rcases h with h | ⟨h, hle⟩
  · left
    omega
  · rcases h' with h' | ⟨h', hle'⟩
    · left
      omega
    · exact .inr ⟨h'.trans h, List.le_trans hle' hle⟩

theorem validatorLess_asymm (v w : Validator) (h : validatorLess v w = true) :
    validatorLess w v = false := by
  rw [validatorLess] at h ⊢
  split at h <;> rename_i heq
  · rw [if_pos heq.symm]
    simp only [decide_eq_true_eq, decide_eq_false_iff_not] at h ⊢
    omega
  · rw [if_neg (Ne.symm heq)]
    simp only [decide_eq_true_eq, decide_eq_false_iff_not] at h ⊢
    omega

theorem not_validatorLess_iff {v w : Validator} :
    validatorLess w v = false ↔ w.remainingEpoch < v.remainingEpoch ∨
      (w.remainingEpoch = v.remainingEpoch ∧ w.votingPower ≤ v.votingPower) := by
  rw [validatorLess]
  split <;> simp only [decide_eq_false_iff_not] <;> omega

theorem not_validatorLess_trans (u v w : Validator) (h : validatorLess v u = false)
    (h' : validatorLess w v = false) : validatorLess w u = false := by
  rw [not_validatorLess_iff] at h h' ⊢
  omega

/-- **A sorted list is determined by its elements**, if no two of them are tied. -/
theorem SortSlice.sort_eq {α : Type} {less : α → α → Bool} (S S' : SortSlice less) {l l' : List α}
    (hl : l.Perm l') (h : ∀ a ∈ l, ∀ b ∈ l, less a b = false → less b a = false → a = b) :
    S.sort l = S'.sort l' := by
  refine List.Perm.eq_of_pairwise ?_ (S.sorted l) (S'.sorted l')
    (((S.perm l).trans hl).trans (S'.perm l').symm)
  intro a b ha hb hab hba
  exact h a ((S.perm l).mem_iff.1 ha) b (hl.mem_iff.2 ((S'.perm l').mem_iff.1 hb)) hba hab

theorem eq_of_not_voteLess {v w : EpochValidatorVote} (h : voteLess v w = false)
    (h' : voteLess w v = false) : v.address = w.address := by
  rw [not_voteLess_iff] at h h'
  rcases h with h | ⟨heq, hle⟩
  · rcases h' with h' | ⟨h', -⟩ <;> omega
  · rcases h' with h' | ⟨-, hle'⟩
    · omega
    · exact List.le_antisymm hle hle'

/-! ## How far the order decides -/

namespace SortSlice

variable {α : Type} {less : α → α → Bool}

/-- How many elements of a list come before an element in every sorted order. -/
def ahead (less : α → α → Bool) (l : List α) (a : α) : Nat := l.countP fun b => less b a

/-- In a sorted list, those that come before an element stand before it. -/
theorem ahead_le (hirrefl : ∀ a, less a a = false) {A B : List α} {a : α}
    (h : (A ++ a :: B).Pairwise fun a b => less b a = false) : ahead less (A ++ a :: B) a ≤ A.length := by
  have hB : ∀ b ∈ a :: B, ¬ less b a = true := by
    intro b hb
    rw [Bool.not_eq_true]
    rcases List.mem_cons.1 hb with rfl | hb
    · exact hirrefl b
    · exact (List.pairwise_cons.1 (List.pairwise_append.1 h).2.1).1 b hb
  rw [ahead, List.countP_append, List.countP_eq_zero.2 hB]
  exact List.countP_le_length

/-- **Sorted lists agree as far as there are no ties.** -/
theorem take_eq (S S' : SortSlice less) (hirrefl : ∀ a, less a a = false) {l : List α} (n : Nat)
    (h : ∀ a ∈ l, ∀ b ∈ l, less a b = false → less b a = false → a = b ∨ n ≤ ahead less l a) :
    (S.sort l).take n = (S'.sort l).take n := by
  induction n with
  | zero => rfl
  | succ n ih =>
    have htake := ih fun a ha b hb hab hba => by
      rcases h a ha b hb hab hba with heq | hle
      · exact .inl heq
      · exact .inr (Nat.le_of_succ_le hle)
    have hlen : (S.sort l).length = (S'.sort l).length :=
      ((S.perm l).trans (S'.perm l).symm).length_eq
    by_cases hn : n < (S.sort l).length
    · have hn' : n < (S'.sort l).length := hlen ▸ hn
      rw [List.take_succ_eq_append_getElem hn, List.take_succ_eq_append_getElem hn', htake]
      congr 2
      have hsplit : S.sort l = (S.sort l).take n ++ (S.sort l)[n] :: (S.sort l).drop (n + 1) := by
        rw [← List.drop_eq_getElem_cons hn, List.take_append_drop]
      have hsplit' : S'.sort l = (S.sort l).take n ++ (S'.sort l)[n] :: (S'.sort l).drop (n + 1) := by
        rw [htake, ← List.drop_eq_getElem_cons hn', List.take_append_drop]
      have hperm : ((S.sort l)[n] :: (S.sort l).drop (n + 1)).Perm
          ((S'.sort l)[n] :: (S'.sort l).drop (n + 1)) := by
        rw [← List.perm_append_left_iff ((S.sort l).take n), ← hsplit, ← hsplit']
        exact (S.perm l).trans (S'.perm l).symm
      have hsorted := S.sorted l
      have hsorted' := S'.sorted l
      rw [hsplit] at hsorted
      rw [hsplit'] at hsorted'
      have hahead := ahead_le hirrefl hsorted
      rw [← hsplit, ahead, (S.perm l).countP_eq, List.length_take_of_le hn.le] at hahead
      have hmem : (S.sort l)[n] ∈ l := (S.perm l).mem_iff.1 (List.getElem_mem hn)
      have hmem' : (S'.sort l)[n] ∈ l := (S'.perm l).mem_iff.1 (List.getElem_mem hn')
      -- each of the two elements is the other, or stands behind it
      rcases List.mem_cons.1 (hperm.mem_iff.2 List.mem_cons_self) with heq | hbehind
      · exact heq.symm
      rcases List.mem_cons.1 (hperm.mem_iff.1 List.mem_cons_self) with heq | hbehind'
      · exact heq
      have hless := (List.pairwise_cons.1 (List.pairwise_append.1 hsorted).2.1).1 _ hbehind
      have hless' := (List.pairwise_cons.1 (List.pairwise_append.1 hsorted').2.1).1 _ hbehind'
      rcases h _ hmem _ hmem' hless' hless with heq | hle
      · exact heq
      · exact absurd hle (Nat.not_le_of_gt (Nat.lt_succ_of_le hahead))
    · rw [List.take_of_length_le (by omega), List.take_of_length_le (by omega)] at htake
      rw [List.take_of_length_le (by omega), List.take_of_length_le (by omega), htake]

section Early

variable [DecidableEq α] (hasymm : ∀ a b, less a b = true → less b a = false)
  (htrans : ∀ a b c, less b a = false → less c b = false → less c a = false)

/-- The sort that puts an element as early as the order allows: behind those that come before it,
and before all the others. -/
def early (S : SortSlice less) (a : α) : SortSlice less where
  sort l := S.sort (l.filter fun b => less b a) ++
    ((l.filter fun b => !less b a).filter (fun b => b = a) ++
      S.sort ((l.filter fun b => !less b a).filter fun b => !decide (b = a)))
  perm l := by
    have hrest := List.filter_append_perm (fun b => decide (b = a)) (l.filter fun b => !less b a)
    have hall := List.filter_append_perm (fun b => less b a) l
    exact ((S.perm _).append (((List.Perm.refl _).append (S.perm _)).trans hrest)).trans hall
  sorted l := by
    have hirrefl : less a a = false := by
      cases h : less a a with
      | false => rfl
      | true => exact h ▸ hasymm a a h
    have hbehind : ∀ b ∈ (l.filter fun b => !less b a).filter (fun b => b = a) ++
        S.sort ((l.filter fun b => !less b a).filter fun b => !decide (b = a)), less b a = false := by
      intro b hb
      rw [List.mem_append, (S.perm _).mem_iff, List.mem_filter, List.mem_filter, List.mem_filter] at hb
      rcases hb with ⟨hb, -⟩ | ⟨hb, -⟩
      · simpa using hb.2
      · simpa using (List.mem_filter.1 hb).2
    refine List.pairwise_append.2 ⟨S.sorted _, List.pairwise_append.2 ⟨?_, S.sorted _, ?_⟩, ?_⟩
    · refine List.pairwise_of_forall_mem_list fun b hb c hc => ?_
      have hb' := of_decide_eq_true (List.mem_filter.1 hb).2
      have hc' := of_decide_eq_true (List.mem_filter.1 hc).2
      rw [hb', hc']
      exact hirrefl
    · intro b hb c hc
      rw [of_decide_eq_true (List.mem_filter.1 hb).2]
      exact hbehind c (List.mem_append_right _ hc)
    · intro b hb c hc
      rw [(S.perm _).mem_iff, List.mem_filter] at hb
      exact htrans b a c (hasymm b a hb.2) (hbehind c hc)

theorem early_getElem? (S : SortSlice less) {l : List α} {a : α} (ha : a ∈ l) :
    ((S.early hasymm htrans a).sort l)[ahead less l a]? = some a := by
  have hirrefl : less a a = false := by
    cases h : less a a with
    | false => rfl
    | true => exact h ▸ hasymm a a h
  have hlen : (S.sort (l.filter fun b => less b a)).length = ahead less l a := by
    rw [(S.perm _).length_eq, ahead, List.countP_eq_length_filter]
  have hfilter : ∃ t, (l.filter fun b => !less b a).filter (fun b => decide (b = a)) = a :: t := by
    have hmem : a ∈ (l.filter fun b => !less b a).filter (fun b => decide (b = a)) := by
      simp [ha, hirrefl]
    obtain ⟨b, t, ht⟩ := List.exists_cons_of_ne_nil (List.ne_nil_of_mem hmem)
    have hb : b ∈ (l.filter fun b => !less b a).filter (fun b => decide (b = a)) := ht ▸ List.mem_cons_self
    exact ⟨t, of_decide_eq_true (List.mem_filter.1 hb).2 ▸ ht⟩
  obtain ⟨t, ht⟩ := hfilter
  show (_ ++ (_ ++ _))[_]? = _
  rw [List.getElem?_append_right hlen.le, hlen, Nat.sub_self, ht]
  rfl

end Early

end SortSlice

theorem validatorLess_irrefl (v : Validator) : validatorLess v v = false := by
  rw [not_validatorLess_iff]
  omega

/-! ## A runtime to evaluate with -/

instance : Std.Total fun a b : Address => a ≤ b := ⟨fun a b => List.le_total a b⟩

instance : IsTrans Address fun a b => a ≤ b := ⟨fun _ _ _ => List.le_trans⟩

instance : Std.Antisymm fun a b : Address => a ≤ b := ⟨fun _ _ => List.le_antisymm⟩

/-- Everything in the order of the addresses, and sorted by insertion. -/
def Runtime.sorted : Runtime where
  trieOrder := .ofSort fun a b => a ≤ b
  refundOrder := .ofSort fun a b => a ≤ b
  bannedOrder := .ofSort fun a b => a ≤ b
  candidateOrder := .ofSort fun a b => a ≤ b
  sortVotes := .insertion voteLess voteLess_asymm not_voteLess_trans
  sortValidators := .insertion validatorLess validatorLess_asymm not_validatorLess_trans

/-- The runtime that sorts a validator as early as the order allows. -/
def Runtime.early (rt : Runtime) (v : Validator) : Runtime :=
  { rt with sortValidators := rt.sortValidators.early validatorLess_asymm not_validatorLess_trans v }

end NeatPoS
