import Mathlib.Data.DFinsupp.Multiset
import Mathlib.Algebra.Order.BigOperators.Group.Finset
import Mathlib.Data.List.Sort

/-!
# Ledgers

A ledger assigns an integer to each of its accounts, and zero to all but finitely many.  This file
is about two things one does with a ledger: weighing it, and posting to it in a loop.

* `weigh w` is the sum of all amounts, each with the weight `w` gives to its account.  It is
  additive, so that a law of bookkeeping ("the total does not change", "this account is the sum of
  those") is the statement that some weighing of what is posted gives zero.
  `eq_zero_of_weigh_eq_zero` reads such a law backwards: amounts of one sign whose sum is zero are
  all zero.
* `Iteration` is an order in which the elements of a finite set are visited.  The loops below take
  one as a parameter whenever the program does not say in which order it goes.
* `foldl_posts` computes what a loop has posted, when each round of it posts something that the
  other rounds do not look at, and `foldl_pointwise` what a loop has done to each element, when each
  round changes its own element only.
-/

set_option autoImplicit false

namespace Ledger

section Weigh

variable {K : Type} [DecidableEq K]

/-- The weighted sum of all amounts. -/
def weigh (w : K → Int) : (Π₀ _ : K, Int) →+ Int :=
  DFinsupp.sumAddHom fun k => AddMonoidHom.mulLeft (w k)

@[simp] theorem weigh_single (w : K → Int) (k : K) (x : Int) :
    weigh w (DFinsupp.single k x) = w k * x := by
  rw [weigh, DFinsupp.sumAddHom_single]
  rfl

theorem weigh_eq_sum (w : K → Int) (f : Π₀ _ : K, Int) :
    weigh w f = ∑ k ∈ f.support, w k * f k := by
  rw [weigh, DFinsupp.sumAddHom_apply, DFinsupp.sum]
  rfl

/-- The weighing that reads one account. -/
theorem weigh_indicator (k : K) (f : Π₀ _ : K, Int) :
    weigh (fun k' => if k' = k then 1 else 0) f = f k := by
  rw [weigh_eq_sum]
  simp only [ite_mul, one_mul, zero_mul, Finset.sum_ite_eq', DFinsupp.mem_support_iff]
  split
  · rfl
  · rename_i h
    exact (not_not.1 h).symm

theorem weigh_sub (v w : K → Int) (f : Π₀ _ : K, Int) :
    weigh (fun k => v k - w k) f = weigh v f - weigh w f := by
  rw [weigh_eq_sum, weigh_eq_sum, weigh_eq_sum, ← Finset.sum_sub_distrib]
  exact Finset.sum_congr rfl fun k _ => sub_mul _ _ _

/-- Accounts of weight zero do not count. -/
theorem weigh_congr {w : K → Int} {f g : Π₀ _ : K, Int} (h : ∀ k, w k ≠ 0 → f k = g k) :
    weigh w f = weigh w g := by
  have hdiff : weigh w (f - g) = 0 := by
    rw [weigh_eq_sum]
    refine Finset.sum_eq_zero fun k _ => ?_
    by_cases hw : w k = 0
    · rw [hw, zero_mul]
    · rw [DFinsupp.sub_apply, h k hw, sub_self, mul_zero]
  rw [map_sub] at hdiff
  exact sub_eq_zero.1 hdiff

theorem weigh_nonneg {w : K → Int} {f : Π₀ _ : K, Int} (h : ∀ k, 0 ≤ w k * f k) :
    0 ≤ weigh w f := by
  rw [weigh_eq_sum]
  exact Finset.sum_nonneg fun k _ => h k

/-- **Amounts of one sign whose sum is zero are zero.** -/
theorem eq_zero_of_weigh_eq_zero {w : K → Int} {f : Π₀ _ : K, Int} (h : ∀ k, 0 ≤ w k * f k)
    (hsum : weigh w f = 0) (k : K) : w k * f k = 0 := by
  rw [weigh_eq_sum, Finset.sum_eq_zero_iff_of_nonneg fun k _ => h k] at hsum
  by_cases hk : f k = 0
  · rw [hk, mul_zero]
  · exact hsum k (DFinsupp.mem_support_iff.2 hk)

end Weigh

/-! ## Loops -/

/-- An order in which the elements of a finite set are visited. -/
structure Iteration (α : Type) where
  list : Finset α → List α
  nodup : ∀ S, (list S).Nodup
  mem : ∀ S a, a ∈ list S ↔ a ∈ S

variable {α σ : Type}

/-- The elements in the order of a sorted list. -/
def Iteration.ofSort (r : α → α → Prop) [DecidableRel r] [Std.Total r] [IsTrans α r]
    [Std.Antisymm r] : Iteration α where
  list := fun S => Quotient.liftOn S.val (List.insertionSort r) fun l l' h =>
    (((List.perm_insertionSort r l).trans h).trans (List.perm_insertionSort r l').symm).eq_of_pairwise'
      (List.pairwise_insertionSort r l) (List.pairwise_insertionSort r l')
  nodup := by
    rintro ⟨⟨l⟩, hl⟩
    exact (List.perm_insertionSort r l).nodup_iff.2 hl
  mem := by
    rintro ⟨⟨l⟩, hl⟩ a
    exact (List.perm_insertionSort r l).mem_iff

/-- A sum over the elements visited is a sum over the set. -/
theorem Iteration.sum_list [DecidableEq α] {M : Type} [AddCommMonoid M] (it : Iteration α)
    (S : Finset α) (f : α → M) : ((it.list S).map f).sum = ∑ a ∈ S, f a := by
  have hS : (it.list S).toFinset = S := by
    ext a
    rw [List.mem_toFinset, it.mem]
  rw [← List.sum_toFinset f (it.nodup S), hS]

/-- A loop whose rounds each post `δ a`, whatever the rounds before it have done, posts their sum.
`R a s` is what round `a` needs to find; the rounds of other elements leave it alone. -/
theorem foldl_posts {M : Type} [AddMonoid M] {P : σ → σ → M → Prop} {step : σ → α → σ}
    {δ : α → M} {R : α → σ → Prop} (hrefl : ∀ s, P s s 0)
    (htrans : ∀ {s t u Δ Δ'}, P s t Δ → P t u Δ' → P s u (Δ + Δ'))
    (hstep : ∀ a s, R a s → P s (step s a) (δ a))
    (hkeep : ∀ a b s, a ≠ b → R a s → R b s → R b (step s a)) (l : List α) (hl : l.Nodup) (s : σ)
    (hR : ∀ a ∈ l, R a s) : P s (l.foldl step s) (l.map δ).sum := by
  induction l generalizing s with
  | nil => exact hrefl s
  | cons a l ih =>
    obtain ⟨ha, hl⟩ := List.nodup_cons.1 hl
    have hhead : P s (step s a) (δ a) := hstep a s (hR a List.mem_cons_self)
    have htail : ∀ b ∈ l, R b (step s a) := by
      intro b hb
      have hne : a ≠ b := fun h => ha (h ▸ hb)
      exact hkeep a b s hne (hR a List.mem_cons_self) (hR b (List.mem_cons_of_mem a hb))
    rw [List.foldl_cons, List.map_cons, List.sum_cons]
    exact htrans hhead (ih hl (step s a) htail)

/-- A loop whose rounds each change their own element only has changed those it has visited.  `I` is
what all rounds keep. -/
theorem foldl_pointwise [DecidableEq α] {β : Type} {f : σ → α → σ} {r : σ → α → β}
    {g : α → β → β} {I : σ → Prop} (hI : ∀ s a, I s → I (f s a))
    (hself : ∀ s a, I s → r (f s a) a = g a (r s a))
    (hother : ∀ s a b, I s → b ≠ a → r (f s a) b = r s b) (l : List α) (hl : l.Nodup) (s : σ)
    (hs : I s) (b : α) :
    r (l.foldl f s) b = if b ∈ l then g b (r s b) else r s b := by
  induction l generalizing s with
  | nil => rfl
  | cons a _ ih =>
    obtain ⟨ha, hl⟩ := List.nodup_cons.1 hl
    rw [List.foldl_cons, ih hl (f s a) (hI s a hs)]
    by_cases hb : b = a
    · subst hb
      rw [if_neg ha, if_pos List.mem_cons_self, hself s b hs]
    · rw [hother s a b hs hb]
      simp only [List.mem_cons, hb, false_or]

/-! ## Shares -/

/-- Shares that are rounded down do not exceed the whole. -/
theorem sum_shares_le {S : Finset α} {w : α → Int} {total : Int} (x : Int) (htotal : 0 < total)
    (hsum : ∑ a ∈ S, w a = total) : ∑ a ∈ S, w a * x / total ≤ x := by
  refine le_of_mul_le_mul_right ?_ htotal
  calc (∑ a ∈ S, w a * x / total) * total
      = ∑ a ∈ S, w a * x / total * total := Finset.sum_mul _ _ _
    _ ≤ ∑ a ∈ S, w a * x := Finset.sum_le_sum fun a _ => Int.ediv_mul_le _ (Int.ne_of_gt htotal)
    _ = x * total := by rw [← Finset.sum_mul, hsum, mul_comm]

end Ledger
