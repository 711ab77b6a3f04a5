import Mathlib.Logic.Relation

/-!
# Programs with a state that may fail midway

`EStateM ε σ` is a state monad with exceptions in which an exception keeps the state reached so
far.  That is what a language with in-place updates and panics needs: whoever runs after the panic,
a deferred function for instance, sees the half-finished state.

The file reasons about such programs through one observation, `endState m s`: the state in which
`m`, started in `s`, stops, whether it returns or fails.  Each operation has a simp lemma for it, so
that a program is executed symbolically by `simp only` and `split`; `bind_eq_ok` takes a program
that has returned apart, and `Returns` says of a computation without a state that it does not fail.
Where the final state is not needed exactly, `Leads R m s` says that it is related to the initial
one, and for a preorder `R` it composes (`Leads.bind`).  Dually, `Blames e B m`
says what must be true when `m` has failed with one particular exception; with `B` never true, that
it cannot.
-/

set_option autoImplicit false

namespace Stateful

variable {ε σ α β : Type}

/-- The state in which a program stops, whether it returns or fails. -/
def endState (m : EStateM ε σ α) (s : σ) : σ :=
  match m s with
  | .ok _ s' => s'
  | .error _ s' => s'

/-- The exception with which a program stops, if it fails. -/
def endError (m : EStateM ε σ α) (s : σ) : Option ε :=
  match m s with
  | .ok _ _ => none
  | .error e _ => some e

/-- Runs `fin` after `body`, also when `body` fails. -/
def deferred (body fin : EStateM ε σ Unit) : EStateM ε σ Unit := fun s =>
  match body s with
  | .ok _ s' => fin s'
  | .error e s' =>
    match fin s' with
    | .ok _ s'' => .error e s''
    | .error e' s'' => .error e' s''

/-- A computation that may fail and does not touch the state. -/
def fromExcept (x : Except ε α) : EStateM ε σ α := fun s =>
  match x with
  | .ok a => .ok a s
  | .error e => .error e s

/-- Runs `m` if the condition holds. -/
def guarded (c : Bool) (m : EStateM ε σ Unit) : EStateM ε σ Unit := if c then m else pure ()

/-! ## Symbolic execution -/

@[simp] theorem endState_pure (a : α) (s : σ) : endState (pure a : EStateM ε σ α) s = s := rfl

@[simp] theorem endState_fromExcept (x : Except ε α) (s : σ) : endState (fromExcept x) s = s := by
  cases x <;> rfl

@[simp] theorem endState_get_bind (f : σ → EStateM ε σ β) (s : σ) :
    endState (get >>= f) s = endState (f s) s := rfl

@[simp] theorem endState_modify_bind (g : σ → σ) (f : PUnit → EStateM ε σ β) (s : σ) :
    endState (modify g >>= f) s = endState (f ()) (g s) := rfl

theorem endState_fromExcept_bind (x : Except ε α) (f : α → EStateM ε σ β) (s : σ) :
    endState (fromExcept x >>= f) s =
      match x with
      | .ok a => endState (f a) s
      | .error _ => s := by
  cases x <;> rfl

theorem endState_bind (m : EStateM ε σ α) (f : α → EStateM ε σ β) (s : σ) :
    endState (m >>= f) s =
      match m s with
      | .ok a s' => endState (f a) s'
      | .error _ s' => s' := by
  simp only [endState, bind, EStateM.bind]
  cases m s <;> rfl

/-- After a program that may fail, either nothing more happens or the rest runs on its result. -/
theorem endState_bind_cases (m : EStateM ε σ α) (f : α → EStateM ε σ β) (s : σ) :
    endState (m >>= f) s = endState m s ∨
      ∃ a, m s = .ok a (endState m s) ∧ endState (m >>= f) s = endState (f a) (endState m s) := by
  rw [endState_bind, endState]
  cases m s with
  | ok a => exact .inr ⟨a, rfl, rfl⟩
  | error => exact .inl rfl

@[simp] theorem endState_guarded (c : Bool) (m : EStateM ε σ Unit) (s : σ) :
    endState (guarded c m) s = if c then endState m s else s := by
  cases c <;> rfl

@[simp] theorem endState_guarded_modify_bind (c : Bool) (g : σ → σ) (f : PUnit → EStateM ε σ β)
    (s : σ) :
    endState (guarded c (modify g) >>= f) s = endState (f ()) (if c then g s else s) := by
  cases c <;> rfl

/-- Whether or not the body fails, the deferred function runs on the state it left. -/
@[simp] theorem endState_deferred (body fin : EStateM ε σ Unit) (s : σ) :
    endState (deferred body fin) s = endState fin (endState body s) := by
  simp only [endState, deferred]
  cases body s with
  | ok => rfl
  | error _ s' =>
    simp only
    cases fin s' <;> rfl

@[simp] theorem endError_pure (a : α) (s : σ) : endError (pure a : EStateM ε σ α) s = none := rfl

@[simp] theorem endError_get_bind (f : σ → EStateM ε σ β) (s : σ) :
    endError (get >>= f) s = endError (f s) s := rfl

variable {m : EStateM ε σ α} {s s' : σ} {x : Except ε α} {f : α → EStateM ε σ β} {b : β}

theorem endError_bind_of_ok {a : α} (h : m s = .ok a s') :
    endError (m >>= f) s = endError (f a) s' := by
  simp only [endError, bind, EStateM.bind, h]

theorem endState_of_ok {a : α} (h : m s = .ok a s') : endState m s = s' := by
  rw [endState, h]

theorem get_bind_apply (f : σ → EStateM ε σ β) (s : σ) : (get >>= f) s = f s s := rfl

theorem modify_bind_apply (g : σ → σ) (f : PUnit → EStateM ε σ β) (s : σ) :
    (modify g >>= f) s = f () (g s) := rfl

/-- A program returns after `x` only if `x` has succeeded. -/
theorem fromExcept_bind_eq_ok :
    (fromExcept x >>= f) s = .ok b s' ↔ ∃ a, x = .ok a ∧ f a s = .ok b s' := by
  cases x with
  | ok a =>
    constructor
    · exact fun h ↦ ⟨a, rfl, h⟩
    · rintro ⟨_, ha, h⟩
      rw [← Except.ok.inj ha] at h
      exact h
  | error e =>
    constructor
    · intro h
      exact absurd (show EStateM.Result.error e s = .ok b s' from h) (by simp)
    · rintro ⟨_, ha, -⟩
      cases ha

/-- A program returns if its parts do, one after the other. -/
theorem bind_eq_ok : (m >>= f) s = .ok b s' ↔ ∃ a t, m s = .ok a t ∧ f a t = .ok b s' := by
  simp only [bind, EStateM.bind]
  cases m s with
  | ok a t =>
    constructor
    · exact fun h ↦ ⟨a, t, rfl, h⟩
    · rintro ⟨_, _, ⟨⟩, h⟩
      exact h
  | error =>
    constructor
    · exact fun h ↦ absurd h (by simp)
    · rintro ⟨_, _, h, -⟩
      cases h

/-- The program returns, in a state that passes the test. -/
def returnsIn (m : EStateM ε σ Unit) (s : σ) (test : σ → Bool) : Bool :=
  match m s with
  | .ok _ s' => test s'
  | .error _ _ => false

theorem exists_of_returnsIn {m : EStateM ε σ Unit} {test : σ → Bool}
    (h : returnsIn m s test = true) : ∃ s', m s = .ok () s' ∧ test s' = true := by
  rw [returnsIn] at h
  cases hm : m s with
  | ok _ s' =>
    rw [hm] at h
    exact ⟨s', rfl, h⟩
  | error =>
    rw [hm] at h
    cases h

/-! ## Computations that return -/

/-- The computation does not fail. -/
def Returns (x : Except ε α) : Prop := ∃ a, x = .ok a

@[simp] theorem returns_ok (a : α) : Returns (.ok a : Except ε α) := ⟨a, rfl⟩

@[simp] theorem not_returns_error (e : ε) : ¬ Returns (.error e : Except ε α) := nofun

@[simp] theorem returns_map {f : α → β} : Returns (x.map f) ↔ Returns x := by
  cases x with
  | ok a => exact iff_of_true ⟨f a, rfl⟩ ⟨a, rfl⟩
  | error => exact iff_of_false nofun nofun

theorem map_eq_ok {f : α → β} : x.map f = .ok b ↔ ∃ a, x = .ok a ∧ b = f a := by
  cases x with
  | ok =>
    simp only [Except.map, Except.ok.injEq, exists_eq_left']
    exact eq_comm
  | error => simp [Except.map]

theorem returns_bind {f : α → Except ε β} : Returns (x >>= f) ↔ ∃ a, x = .ok a ∧ Returns (f a) := by
  cases x with
  | ok a =>
    constructor
    · exact fun h ↦ ⟨a, rfl, h⟩
    · rintro ⟨_, ⟨⟩, h⟩
      exact h
  | error e =>
    constructor
    · exact fun h ↦ absurd h (not_returns_error e)
    · rintro ⟨_, h, -⟩
      cases h

/-! ## Where a program leads -/

/-- The program ends in a state related to the one it starts in. -/
def Leads (R : σ → σ → Prop) (m : EStateM ε σ α) (s : σ) : Prop := R s (endState m s)

variable {R : σ → σ → Prop}

open Relation

theorem Leads.of_eq [Std.Refl R] (h : endState m s = s) : Leads R m s := by
  rw [Leads, h]
  exact refl_of R s

theorem Leads.bind [IsTrans σ R]
    (hm : Leads R m s) (hf : ∀ a s', m s = .ok a s' → Leads R (f a) s') :
    Leads R (m >>= f) s := by
  rw [Leads, endState_bind]
  rw [Leads, endState] at hm
  cases h : m s with
  | ok a s' =>
    rw [h] at hm
    exact trans_of R hm (hf a s' h)
  | error =>
    rw [h] at hm
    exact hm

theorem Leads.guarded [Std.Refl R] {c : Bool} {m : EStateM ε σ Unit}
    (h : c = true → Leads R m s) : Leads R (guarded c m) s := by
  rw [Leads, endState_guarded]
  split
  · rename_i hc
    exact h hc
  · exact refl_of R s

/-! ## What a failure says about the state -/

/-- If the program fails with `e`, it leaves a state in `B`. -/
structure Blames (e : ε) (B : σ → Prop) (m : EStateM ε σ α) : Prop where
  of_error : ∀ s, endError m s = some e → B (endState m s)

/-- The computation does not fail with `e`. -/
structure Spares (e : ε) (x : Except ε α) : Prop where
  ne_error : x ≠ .error e

section

variable {e : ε} {B : σ → Prop}

protected theorem Spares.pure (a : α) : Spares e (pure a : Except ε α) := ⟨nofun⟩

variable {e' : ε} {x : Except ε α} {m : EStateM ε σ α}

protected theorem Spares.throw (h : e' ≠ e) : Spares e (throw e' : Except ε α) :=
  ⟨fun h' ↦ h (Except.error.inj h')⟩

protected theorem Spares.bind {f : α → Except ε β} (hx : Spares e x)
    (hf : ∀ a, Spares e (f a)) : Spares e (x >>= f) := by
  cases x with
  | ok a => exact hf a
  | error => exact ⟨fun h ↦ hx.ne_error (congrArg Except.error (Except.error.inj h))⟩

theorem Spares.ite {c : Prop} [Decidable c] {x' : Except ε α} (h : Spares e x)
    (h' : Spares e x') : Spares e (if c then x else x') := by
  split
  · exact h
  · exact h'

/-- Passing on the failure of another computation. -/
theorem Spares.rethrow (hx : Spares e x) (h : x = .error e') : Spares e (.error e' : Except ε β) :=
  ⟨fun h' ↦ hx.ne_error (h.trans (congrArg Except.error (Except.error.inj h')))⟩

theorem Blames.ne_error (h : Blames e (fun _ ↦ False) m) (s : σ) : endError m s ≠ some e :=
  fun hs ↦ h.of_error s hs

protected theorem Blames.pure (a : α) : Blames e B (pure a : EStateM ε σ α) := ⟨nofun⟩

protected theorem Blames.throw (h : e' ≠ e) : Blames e B (throw e' : EStateM ε σ α) :=
  ⟨fun _ hs ↦ absurd (Option.some.inj hs) h⟩

protected theorem Blames.modify (f : σ → σ) : Blames e B (modify f : EStateM ε σ PUnit) := ⟨nofun⟩

protected theorem Blames.get : Blames e B (get : EStateM ε σ σ) := ⟨nofun⟩

theorem Blames.fromExcept (h : Spares e x) : Blames e B (fromExcept x) := by
  refine ⟨fun s hs ↦ ?_⟩
  cases x with
  | ok => exact absurd (show none = some e from hs) (by simp)
  | error => exact absurd (congrArg Except.error (Option.some.inj hs)) h.ne_error

protected theorem Blames.bind {f : α → EStateM ε σ β} (hm : Blames e B m)
    (hf : ∀ a, Blames e B (f a)) : Blames e B (m >>= f) := by
  refine ⟨fun s hs ↦ ?_⟩
  have hm' := hm.of_error s
  rw [endState_bind]
  simp only [endError, bind, EStateM.bind] at hs
  simp only [endError, endState] at hm'
  cases h : m s with
  | ok a s' =>
    rw [h] at hs
    exact (hf a).of_error s' hs
  | error =>
    rw [h] at hs hm'
    exact hm' hs

theorem Blames.ite {c : Prop} [Decidable c] {m' : EStateM ε σ α} (h : Blames e B m)
    (h' : Blames e B m') : Blames e B (if c then m else m') := by
  split
  · exact h
  · exact h'

theorem Blames.guarded {c : Bool} {m : EStateM ε σ Unit} (h : Blames e B m) :
    Blames e B (guarded c m) :=
  .ite h (.pure ())

/-- A failure of the deferred function replaces that of the body. -/
theorem endError_deferred (body fin : EStateM ε σ Unit) (s : σ) :
    endError (deferred body fin) s =
      (endError fin (endState body s)).or (endError body s) := by
  simp only [endError, endState, deferred]
  cases body s with
  | ok _ s' | error _ s' =>
    simp only
    cases fin s' <;> rfl

theorem Blames.deferred {body fin : EStateM ε σ Unit} (hbody : Blames e (fun _ ↦ False) body)
    (hfin : Blames e B fin) : Blames e B (deferred body fin) := by
  refine ⟨fun s hs ↦ ?_⟩
  rw [endError_deferred, Option.or_eq_some_iff] at hs
  rw [endState_deferred]
  rcases hs with hs | ⟨-, hs⟩
  · exact hfin.of_error _ hs
  · exact (hbody.of_error s hs).elim

end

end Stateful
