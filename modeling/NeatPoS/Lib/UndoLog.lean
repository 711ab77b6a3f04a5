import Mathlib.Data.List.Basic

/-!
# Undo logs

A program that may have to take back what it did can keep a log: each step leaves entries from which
it can be undone, and going back is to undo the entries, the newest one first.

Undoing rarely gives exactly the state from before.  Caches stay warm, flags stay set, and whether
that matters depends on what else is in the log: a leftover in something that a later entry will
remove altogether is harmless.  So the notion of being as good as the old state is a relation
`R log t s` that may look at the entries `log` that are still to be undone, and it need not be
symmetric: `t` is the state on the way back, `s` the state on the way there.

`Steps.undone` is the rule: if a single step is undone, up to `R`, then so is every run.
-/

set_option autoImplicit false

namespace UndoLog

variable {σ ε π : Type}

/-- Undoes the entries of a log, the newest one first. -/
def undoAll (undo : ε → σ → Except π σ) : List ε → σ → Except π σ
  | [], s => .ok s
  | e :: log, s => undo e s >>= undoAll undo log

variable {undo : ε → σ → Except π σ}

@[simp] theorem undoAll_singleton (e : ε) (s : σ) : undoAll undo [e] s = undo e s := by
  change undo e s >>= (fun s => Except.ok s) = undo e s
  cases undo e s <;> rfl

theorem undoAll_append (log log' : List ε) (s : σ) :
    undoAll undo (log ++ log') s = undoAll undo log s >>= undoAll undo log' := by
  induction log generalizing s with
  | nil => rfl
  | cons e log ih =>
    change undo e s >>= undoAll undo (log ++ log') = (undo e s >>= undoAll undo log) >>= _
    cases undo e s with
    | error => rfl
    | ok s' => exact ih s'

/-- A property that undoing an entry keeps, for each entry of a log, is kept by undoing them all. -/
theorem undoAll_preserves {I : σ → Prop} {log : List ε}
    (hlog : ∀ e ∈ log, ∀ s s', undo e s = .ok s' → I s → I s') {s s' : σ}
    (h : undoAll undo log s = .ok s') (hs : I s) : I s' := by
  induction log generalizing s with
  | nil =>
    cases h
    exact hs
  | cons e _ ih =>
    rw [undoAll] at h
    cases he : undo e s with
    | error => simp [he, bind, Except.bind] at h
    | ok t =>
      rw [he] at h
      exact ih (fun e' he' => hlog e' (List.mem_cons_of_mem e he')) h
        (hlog e (List.mem_cons_self ..) s t he hs)

/-- A run whose steps prepend their entries to a log.  A step may depend on the log. -/
inductive Steps (step : List ε → σ → List ε → σ → Prop) :
    List ε → σ → List ε → σ → Prop
  | refl (log : List ε) (s : σ) : Steps step log s log s
  | tail {log s log' s' entries s''} (h : Steps step log s log' s')
      (hstep : step log' s' entries s'') : Steps step log s (entries ++ log') s''

variable {step : List ε → σ → List ε → σ → Prop}

/-- **A run is undone if its steps are.**  From a state as good as the last one of the run, undoing
what the run has logged succeeds and ends in a state as good as the first one. -/
theorem Steps.undone {R : List ε → σ → σ → Prop}
    (hstep : ∀ {log s entries s' t}, step log s entries s' → R (entries ++ log) t s' →
      ∃ t', undoAll undo entries t = .ok t' ∧ R log t' s)
    {log log' : List ε} {s s' t : σ} (h : Steps step log s log' s') (hR : R log' t s') :
    ∃ entries t', log' = entries ++ log ∧ undoAll undo entries t = .ok t' ∧ R log t' s := by
  induction h generalizing t with
  | refl => exact ⟨[], t, rfl, rfl, hR⟩
  | tail _ hs ih =>
    obtain ⟨_, ht₁, hR₁⟩ := hstep hs hR
    obtain ⟨entries, t₂, rfl, ht₂, hR₂⟩ := ih hR₁
    refine ⟨_ ++ entries, t₂, (List.append_assoc _ _ _).symm, ?_, hR₂⟩
    rw [undoAll_append, ht₁]
    exact ht₂

end UndoLog
