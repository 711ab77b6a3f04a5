import Mathlib.Algebra.Order.Group.Int
import Mathlib.Algebra.Order.BigOperators.Group.List
import Mathlib.Data.Set.Basic
import Mathlib.Tactic.Linarith

/-!
# Weighted quorums

Members of a group are numbered, and each has a weight.  A list of bits says who took part in
something, and `weight` is what those members weigh together.  `exists_common_pos` is the one fact a
voting protocol needs of this: two participations that weigh more than the total together have a
member in common, and one of positive weight, provided that no weight is negative.

`System` is what an argument about agreement should depend on instead: a family of sets any two of
which meet.  `System.majority` is the instance that the weights give.
-/

set_option autoImplicit false

namespace Quorum

/-- What the members whose bit is set weigh together. -/
def weight : List Bool → List Int → Int
  | true :: bs, w :: ws => w + weight bs ws
  | false :: bs, _ :: ws => weight bs ws
  | [], _ => 0
  | _ :: _, [] => 0

@[simp] theorem weight_nil_left (ws : List Int) : weight [] ws = 0 := rfl

variable (bs : List Bool)

@[simp] theorem weight_nil_right : weight bs [] = 0 := by
  cases bs with
  | nil => rfl
  | cons b => cases b <;> rfl

@[simp] theorem weight_true_cons (w : Int) (ws : List Int) :
    weight (true :: bs) (w :: ws) = w + weight bs ws := rfl

@[simp] theorem weight_false_cons (w : Int) (ws : List Int) :
    weight (false :: bs) (w :: ws) = weight bs ws := rfl

theorem weight_nonneg (ws : List Int) (h : ∀ w ∈ ws, 0 ≤ w) : 0 ≤ weight bs ws := by
  induction ws generalizing bs with
  | nil => simp
  | cons w ws ih =>
    have hw : 0 ≤ w := h w (by simp)
    have hws : ∀ x ∈ ws, 0 ≤ x := fun x hx ↦ h x (by simp [hx])
    match bs with
    | [] => simp
    | true :: bs =>
      have := ih bs hws
      rw [weight_true_cons]
      omega
    | false :: bs => exact ih bs hws

@[simp] theorem weight_replicate_false (n : Nat) (ws : List Int) :
    weight (List.replicate n false) ws = 0 := by
  induction n generalizing ws with
  | zero => simp
  | succ _ ih =>
    match ws with
    | [] => simp
    | w :: ws => rw [List.replicate_succ, weight_false_cons, ih]

/-- One more member takes part. -/
theorem weight_set_true {bs : List Bool} {ws : List Int} {i : Nat} {w : Int}
    (hb : bs[i]? = some false) (hw : ws[i]? = some w) :
    weight (bs.set i true) ws = weight bs ws + w := by
  induction ws generalizing bs i with
  | nil => simp at hw
  | cons x ws ih =>
    match bs, i with
    | [], _ => simp at hb
    | b :: bs, 0 =>
      obtain rfl : b = false := by simpa using hb
      obtain rfl : x = w := by simpa using hw
      rw [List.set_cons_zero, weight_true_cons, weight_false_cons, Int.add_comm]
    | true :: bs, i + 1 =>
      have htail : weight (bs.set i true) ws = weight bs ws + w :=
        ih (by simpa using hb) (by simpa using hw)
      rw [List.set_cons_succ, weight_true_cons, weight_true_cons, htail, Int.add_assoc]
    | false :: bs, i + 1 =>
      have htail : weight (bs.set i true) ws = weight bs ws + w :=
        ih (by simpa using hb) (by simpa using hw)
      exact htail

/-- A participation weighs at least what a part of it weighs. -/
theorem weight_mono {a b : List Bool} {ws : List Int} (h : ∀ w ∈ ws, 0 ≤ w)
    (hab : ∀ i : Nat, a[i]? = some true → b[i]? = some true) : weight a ws ≤ weight b ws := by
  induction ws generalizing a b with
  | nil => simp
  | cons w ws ih =>
    have hws : ∀ x ∈ ws, 0 ≤ x := fun x hx ↦ h x (by simp [hx])
    have hw : 0 ≤ w := h w (by simp)
    match a with
    | [] => exact (weight_nil_left _).trans_le (weight_nonneg b _ h)
    | x :: a =>
      match b with
      | [] =>
        -- nothing is set on the right, hence nothing on the left
        have htail : weight a ws ≤ weight [] ws :=
          ih hws fun i hi ↦ by simpa using hab (i + 1) (by simpa using hi)
        obtain rfl : x = false := by
          by_contra hx
          exact absurd (hab 0 (by simp [Bool.eq_true_of_not_eq_false hx])) (by simp)
        simpa using htail
      | y :: b =>
        have htail : weight a ws ≤ weight b ws :=
          ih hws fun i hi ↦ by simpa using hab (i + 1) (by simpa using hi)
        have hhead : x = true → y = true := fun hx ↦ by simpa using hab 0 (by simp [hx])
        match x, y with
        | true, true => simpa using htail
        | true, false => exact absurd (hhead rfl) (by simp)
        | false, true =>
          rw [weight_false_cons, weight_true_cons]
          omega
        | false, false => exact htail

variable (a b : List Bool)

/-- Inclusion and exclusion: what the common members of two participations weigh is at least what
the two weigh together less the total. -/
theorem weight_add_weight_le (ws : List Int) (h : ∀ w ∈ ws, 0 ≤ w) :
    weight a ws + weight b ws ≤ ws.sum + weight (List.zipWith and a b) ws := by
  induction ws generalizing a b with
  | nil => simp
  | cons w ws ih =>
    have hw : 0 ≤ w := h w (by simp)
    have hws : ∀ x ∈ ws, 0 ≤ x := fun x hx ↦ h x (by simp [hx])
    have hsum : 0 ≤ ws.sum := List.sum_nonneg hws
    match a, b with
    | [], [] => simp; omega
    | [], y :: b =>
      have hb := ih [] b hws
      cases y <;> simp at hb ⊢ <;> omega
    | x :: a, [] =>
      have ha := ih a [] hws
      cases x <;> simp at ha ⊢ <;> omega
    | x :: a, y :: b =>
      have hab := ih a b hws
      cases x <;> cases y <;> simp at hab ⊢ <;> omega

/-- A participation of positive weight has a member of positive weight. -/
theorem exists_of_weight_pos (ws : List Int) (h : 0 < weight bs ws) :
    ∃ (i : Nat) (w : Int), bs[i]? = some true ∧ ws[i]? = some w ∧ 0 < w := by
  induction ws generalizing bs with
  | nil => simp at h
  | cons w _ ih =>
    match bs with
    | [] => simp at h
    | true :: bs =>
      rcases lt_or_ge 0 w with hw | hw
      · exact ⟨0, w, by simp, by simp, hw⟩
      · rw [weight_true_cons] at h
        obtain ⟨i, x, hi, hx, hpos⟩ := ih bs (by omega)
        exact ⟨i + 1, x, by simpa using hi, by simpa using hx, hpos⟩
    | false :: bs =>
      obtain ⟨i, x, hi, hx, hpos⟩ := ih bs h
      exact ⟨i + 1, x, by simpa using hi, by simpa using hx, hpos⟩

/-- The bits that are set in both participations. -/
theorem getElem?_zipWith_and {a b : List Bool} {i : Nat} :
    (List.zipWith and a b)[i]? = some true ↔ a[i]? = some true ∧ b[i]? = some true := by
  rw [List.getElem?_zipWith]
  rcases a[i]? with _ | _
  · simp
  · rcases b[i]? with _ | _
    · simp
    · simp only [Option.some.injEq, Bool.and_eq_true]

/-- **Majorities meet**: two participations that weigh more than the total together have a common
member of positive weight. -/
theorem exists_common_pos (ws : List Int) (h : ∀ w ∈ ws, 0 ≤ w)
    (hab : ws.sum < weight a ws + weight b ws) :
    ∃ (i : Nat) (w : Int), a[i]? = some true ∧ b[i]? = some true ∧ ws[i]? = some w ∧ 0 < w := by
  have hle := weight_add_weight_le a b ws h
  obtain ⟨i, w, hi, hw, hpos⟩ := exists_of_weight_pos (List.zipWith and a b) ws (by omega)
  obtain ⟨hia, hib⟩ := getElem?_zipWith_and.1 hi
  exact ⟨i, w, hia, hib, hw, hpos⟩

/-- Two participations that each weigh more than half have a common member. -/
theorem exists_common (ws : List Int) (h : ∀ w ∈ ws, 0 ≤ w)
    (ha : ws.sum < 2 * weight a ws) (hb : ws.sum < 2 * weight b ws) :
    ∃ i : Nat, a[i]? = some true ∧ b[i]? = some true := by
  obtain ⟨i, _, hia, hib, -⟩ := exists_common_pos a b ws h (by omega)
  exact ⟨i, hia, hib⟩

/-- A family of sets of members any two of which meet. -/
structure System (N : Type) where
  /-- The sets that are large enough. -/
  isQuorum : Set N → Prop
  /-- Any two of them have a member in common. -/
  meet : ∀ A B, isQuorum A → isQuorum B → ∃ n, n ∈ A ∧ n ∈ B

/-- The sets that contain a participation of more than half of the weight. -/
def System.majority (ws : List Int) (h : ∀ w ∈ ws, 0 ≤ w) : System Nat where
  isQuorum A := ∃ bs : List Bool, ws.sum < 2 * weight bs ws ∧ ∀ i : Nat, bs[i]? = some true → i ∈ A
  meet := by
    rintro A B ⟨a, ha, hA⟩ ⟨b, hb, hB⟩
    obtain ⟨i, hia, hib⟩ := exists_common a b ws h ha hb
    exact ⟨i, hA i hia, hB i hib⟩

/-- More members never spoil a quorum. -/
theorem System.majority_mono {ws : List Int} {h : ∀ w ∈ ws, 0 ≤ w} {A B : Set Nat}
    (hAB : ∀ i ∈ A, i ∈ B) (hA : (System.majority ws h).isQuorum A) :
    (System.majority ws h).isQuorum B := by
  obtain ⟨bs, hw, hbs⟩ := hA
  exact ⟨bs, hw, fun i hi ↦ hAB i (hbs i hi)⟩

end Quorum
