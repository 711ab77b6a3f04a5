import Mathlib.Data.Finset.Basic
import Mathlib.Data.List.Basic

/-!
# Walks over stored nodes

A forest of nodes that are stored under their hashes: each node has a hash, perhaps a value, and the
forest of its children.  A trie is a forest with one root.

`walk` goes through a forest in pre-order.  It reads each node from the store, and is over as soon as
a node is missing.  What is done at a node, and whether its children are visited, is up to `enter`.
Two ways of entering are looked at here, both with a map from hashes to numbers: `mark` writes a 1
everywhere (`walk_mark`), and `scan` writes a 0 where there is no entry, and passes by what is below
an entry (`walk_scan_of_isSome`, `walk_scan_of_none`).
-/

set_option autoImplicit false

/-- Nodes, with what is below them and what is beside them. -/
inductive NodeForest (κ α : Type) where
  | nil
  | node (hash : κ) (value : Option α) (children rest : NodeForest κ α)
deriving DecidableEq, Repr

namespace NodeForest

variable {κ α σ : Type}

/-- The hashes of the nodes, in pre-order. -/
def hashes : NodeForest κ α → List κ
  | nil => []
  | node h _ cs rest => h :: (cs.hashes ++ rest.hashes)

/-- The values of the nodes, in pre-order. -/
def values : NodeForest κ α → List α
  | nil => []
  | node _ v cs rest => v.toList ++ cs.values ++ rest.values

/-- All the nodes are stored. -/
def Complete (stored : κ → Bool) (f : NodeForest κ α) : Prop := ∀ h ∈ f.hashes, stored h = true

/-- A walk over the stored nodes, and whether it has come to the end. -/
def walk (stored : κ → Bool) (enter : σ → κ → σ × Bool) (onValue : σ → α → σ) :
    NodeForest κ α → σ → σ × Bool
  | nil, s => (s, true)
  | node h v cs rest, s =>
    if stored h then
      let entered := enter s h
      let below := if entered.2 then
          cs.walk stored enter onValue (v.elim entered.1 (onValue entered.1))
        else (entered.1, true)
      if below.2 then rest.walk stored enter onValue below.1 else below
    else (s, false)

/-! ## Counting -/

/-- A 1 at every node. -/
def mark [DecidableEq κ] (nc : κ → Option Nat) (h : κ) : (κ → Option Nat) × Bool :=
  (Function.update nc h (some 1), true)

/-- A 0 where there is no entry. -/
def scan [DecidableEq κ] (nc : κ → Option Nat) (h : κ) : (κ → Option Nat) × Bool :=
  if (nc h).isSome then (nc, false) else (Function.update nc h (some 0), true)

section Count

variable {stored : κ → Bool} {onValue : (κ → Option Nat) → α → κ → Option Nat}
  {f : NodeForest κ α} {nc : κ → Option Nat} {h k : κ}

theorem elim_onValue (hvalue : ∀ nc v, onValue nc v = nc) (v : Option α) (nc : κ → Option Nat) :
    v.elim nc (onValue nc) = nc := by
  cases v with
  | none => rfl
  | some v => exact hvalue nc v

theorem Complete.node {v : Option α} {cs rest : NodeForest κ α}
    (hf : (node k v cs rest).Complete stored) :
    stored k = true ∧ cs.Complete stored ∧ rest.Complete stored := by
  refine ⟨hf k (by simp [hashes]), ?_, ?_⟩
  · intro h hh
    exact hf h (by simp [hashes, hh])
  · intro h hh
    exact hf h (by simp [hashes, hh])

variable [DecidableEq κ] (hvalue : ∀ nc v, onValue nc v = nc)
include hvalue

/-- **Marking** comes to every node of a complete forest. -/
theorem walk_mark (hf : f.Complete stored) (nc : κ → Option Nat) :
    f.walk stored mark onValue nc = (fun h => if h ∈ f.hashes then some 1 else nc h, true) := by
  induction f generalizing nc with
  | nil => simp [walk, hashes]
  | node k _ cs rest ihcs ihrest =>
    obtain ⟨hk, hcs, hrest⟩ := hf.node
    rw [walk, if_pos hk]
    simp only [mark, if_true, elim_onValue hvalue, ihcs hcs, ihrest hrest, Prod.mk.injEq, and_true]
    funext h
    by_cases hr : h ∈ rest.hashes
    · simp [hashes, hr]
    · by_cases hc : h ∈ cs.hashes
      · simp [hashes, hr, hc]
      · by_cases hhk : h = k <;> simp [hashes, hr, hc, hhk]

/-- A scan leaves the entries as they are. -/
theorem walk_scan_of_isSome (f : NodeForest κ α) (hh : (nc h).isSome) :
    (f.walk stored scan onValue nc).1 h = nc h := by
  induction f generalizing nc with
  | nil => rfl
  | node k _ _ _ ihcs ihrest =>
    rw [walk]
    by_cases hs : stored k = true
    · by_cases hk : (nc k).isSome = true
      · simp only [hs, scan, hk, if_true, Bool.false_eq_true, if_false]
        exact ihrest hh
      have hne : h ≠ k := fun e => hk (e ▸ hh)
      have hsame : Function.update nc k (some 0) h = nc h := Function.update_of_ne hne _ _
      have hbelow := @ihcs (Function.update nc k (some 0)) (by rw [hsame]; exact hh)
      rw [hsame] at hbelow
      simp only [hs, scan, hk, if_true, Bool.false_eq_true, if_false, elim_onValue hvalue]
      split
      · rw [ihrest (by rw [hbelow]; exact hh), hbelow]
      · exact hbelow
    · simp only [hs, Bool.false_eq_true, if_false]

/-- What a scan enters is a 0 at a node of the forest. -/
theorem walk_scan_of_none (f : NodeForest κ α) (hh : nc h = none) :
    (f.walk stored scan onValue nc).1 h = none ∨
      (f.walk stored scan onValue nc).1 h = some 0 ∧ h ∈ f.hashes := by
  induction f generalizing nc with
  | nil => exact .inl hh
  | node k _ cs rest ihcs ihrest =>
    rw [walk, hashes]
    by_cases hs : stored k = true
    · by_cases hk : (nc k).isSome = true
      · simp only [hs, scan, hk, if_true, Bool.false_eq_true, if_false]
        rcases ihrest hh with hnone | ⟨hzero, hmem⟩
        · exact .inl hnone
        · exact .inr ⟨hzero, by simp [hmem]⟩
      · simp only [hs, scan, hk, if_true, Bool.false_eq_true, if_false, elim_onValue hvalue]
        -- after the children the entry is a 0, or there is still none
        have hbelow : (cs.walk stored scan onValue (Function.update nc k (some 0))).1 h = none ∨
            (cs.walk stored scan onValue (Function.update nc k (some 0))).1 h = some 0 ∧
              h ∈ k :: (cs.hashes ++ rest.hashes) := by
          by_cases hhk : h = k
          · subst hhk
            rw [walk_scan_of_isSome hvalue cs (by simp)]
            exact .inr ⟨by simp, by simp⟩
          · have hnone : Function.update nc k (some 0) h = none := by
              rw [Function.update_of_ne hhk]
              exact hh
            rcases ihcs hnone with hnone | ⟨hzero, hmem⟩
            · exact .inl hnone
            · exact .inr ⟨hzero, by simp [hmem]⟩
        split
        · rcases hbelow with hnone | ⟨hzero, hmem⟩
          · rcases ihrest hnone with hnone | ⟨hzero, hmem⟩
            · exact .inl hnone
            · exact .inr ⟨hzero, by simp [hmem]⟩
          · rw [walk_scan_of_isSome hvalue rest (by simp [hzero])]
            exact .inr ⟨hzero, hmem⟩
        · exact hbelow
    · simp only [hs, Bool.false_eq_true, if_false]
      exact .inl hh

end Count

end NodeForest
