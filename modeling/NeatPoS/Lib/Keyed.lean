import Mathlib.Data.List.Nodup

/-!
# Lists with keys

A list whose elements have keys, no two of them the same, is a table: looking for a key finds the
element that has it, removing the first element with a key removes all of them, and replacing the
first one replaces all.  The lemmas below turn functions that go through a list from the left into
functions that treat every element alike.
-/

set_option autoImplicit false

namespace Keyed

variable {α β κ : Type} [BEq κ] [LawfulBEq κ] {key : α → κ} {l : List α} {k : κ}

theorem find_eq_none_iff : l.find? (fun a => key a == k) = none ↔ k ∉ l.map key := by
  rw [List.find?_eq_none, List.mem_map, not_exists]
  refine forall_congr' fun a => ?_
  rw [beq_iff_eq, not_and]

theorem find_eq_some_iff (hl : (l.map key).Nodup) {a : α} :
    l.find? (fun a => key a == k) = some a ↔ a ∈ l ∧ key a = k := by
  constructor
  · intro h
    have hkey := List.find?_some h
    exact ⟨List.mem_of_find?_eq_some h, beq_iff_eq.1 hkey⟩
  · rintro ⟨ha, rfl⟩
    cases h : l.find? (fun b => key b == key a) with
    | none => exact absurd (List.mem_map_of_mem ha) (find_eq_none_iff.1 h)
    | some =>
      have hb := List.find?_some h
      rw [List.inj_on_of_nodup_map hl (List.mem_of_find?_eq_some h) ha (beq_iff_eq.1 hb)]

theorem filter_eq_find_toList (hl : (l.map key).Nodup) (k : κ) :
    l.filter (fun a => key a == k) = (l.find? fun a => key a == k).toList := by
  induction l with
  | nil => rfl
  | cons a l ih =>
    rw [List.map_cons, List.nodup_cons] at hl
    by_cases ha : key a = k
    · have hnone : l.find? (fun b => key b == k) = none := find_eq_none_iff.2 (ha ▸ hl.1)
      have hpos : (key a == k) = true := beq_iff_eq.2 ha
      rw [List.filter_cons, List.find?_cons, hpos, ih hl.2, hnone]
      rfl
    · have hneg : (key a == k) = false := by simpa using ha
      rw [List.filter_cons, List.find?_cons, hneg, ih hl.2]
      rfl

theorem eraseP_eq_filter (hl : (l.map key).Nodup) (k : κ) :
    l.eraseP (fun a => key a == k) = l.filter fun a => key a != k := by
  induction l with
  | nil => rfl
  | cons a l ih =>
    rw [List.map_cons, List.nodup_cons] at hl
    rw [List.eraseP_cons, List.filter_cons]
    by_cases ha : key a = k
    · have hall : ∀ b ∈ l, (key b != k) = true := by
        intro b hb
        rw [bne_iff_ne]
        rintro rfl
        exact hl.1 (ha ▸ List.mem_map_of_mem hb)
      simp [ha, List.filter_eq_self.2 hall]
    · have hne : (key a == k) = false := by simp [ha]
      rw [hne, cond_false, ih hl.2, bne, hne]
      rfl

theorem set_eq_map [DecidableEq κ] (hl : (l.map key).Nodup) {a : α} {i : Nat}
    (hi : l.findIdx? (fun b => key b == key a) = some i) :
    l.set i a = l.map fun b => if key b = key a then a else b := by
  induction l generalizing i with
  | nil => cases hi
  | cons b l ih =>
    rw [List.map_cons, List.nodup_cons] at hl
    rw [List.findIdx?_cons] at hi
    by_cases hb : key b = key a
    · have hrest : (l.map fun c => if key c = key a then a else c) = l := by
        refine (List.map_congr_left fun c hc => if_neg fun hca => ?_).trans (List.map_id l)
        exact hl.1 (hb.trans hca.symm ▸ List.mem_map_of_mem hc)
      rw [if_pos (beq_iff_eq.2 hb)] at hi
      cases hi
      rw [List.set_cons_zero, List.map_cons, if_pos hb, hrest]
    · rw [if_neg fun h => hb (beq_iff_eq.1 h)] at hi
      obtain ⟨_, hj, rfl⟩ := Option.map_eq_some_iff.1 hi
      rw [List.set_cons_succ, List.map_cons, if_neg hb, ih hl.2 hj]

omit [BEq κ] [LawfulBEq κ] in
/-- The keys of what a partial function makes of a list. -/
theorem map_filterMap_sublist {f : β → Option α} {g : β → κ} (hf : ∀ b a, f b = some a → key a = g b)
    (l : List β) : ((l.filterMap f).map key).Sublist (l.map g) := by
  induction l with
  | nil => exact List.Sublist.refl _
  | cons b _ ih =>
    cases hb : f b with
    | none =>
      rw [List.filterMap_cons_none hb, List.map_cons]
      exact ih.cons _
    | some a =>
      rw [List.filterMap_cons_some hb, List.map_cons, List.map_cons, hf b a hb]
      exact ih.cons_cons _

end Keyed
