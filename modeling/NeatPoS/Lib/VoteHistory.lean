import NeatPoS.Lib.Quorum
import Mathlib.Order.Lattice

/-!
# Lawful voting histories agree

A protocol with two votes a round, abstractly: members cast *prevotes* and *precommits* for values,
and a value is decided when a quorum has precommitted it in one round.  The history of everything
that was cast is a list, most recent first, so that the tail of a history is what had been cast
before its head.

`Lawful` is the discipline that makes deciding safe, one clause for each way a vote can go wrong:

* a precommit for a value comes after a quorum of prevotes for it in the same round;
* a member does not precommit two values in one round;
* a member does not precommit in a round lower than one it has already prevoted in;
* a member that has precommitted a value prevotes something else in a later round only after a
  quorum of prevotes, in a round in between, for something else.

Nothing is said about prevotes being unique, about nodes, messages or locks: these are how a
protocol comes to be lawful.  `Lawful.agreement` is the consequence.
-/

set_option autoImplicit false

namespace VoteHistory

open Quorum

variable {N V R : Type} [LinearOrder R]

/-- The two votes of a round. -/
inductive Kind where
  | prevote
  | precommit
deriving DecidableEq

/-- One vote; `value = none` is a vote for nothing. -/
structure Cast (N V R : Type) where
  node : N
  kind : Kind
  round : R
  value : Option V

variable (Q : System N)

/-- A quorum has cast this vote. -/
def HasQuorum (h : List (Cast N V R)) (k : Kind) (r : R) (v : Option V) : Prop :=
  Q.isQuorum {n | (⟨n, k, r, v⟩ : Cast N V R) ∈ h}

/-- What a prevote must respect, given the history before it. -/
def PrevoteOk (h : List (Cast N V R)) (n : N) (r : R) (v : Option V) : Prop :=
  ∀ r' w, ⟨n, .precommit, r', some w⟩ ∈ h → r' < r → v = some w ∨
    ∃ r'' v'', r' < r'' ∧ r'' ≤ r ∧ v'' ≠ some w ∧ HasQuorum Q h .prevote r'' v''

/-- What a precommit for a value must respect, given the history before it. -/
structure PrecommitOk (h : List (Cast N V R)) (n : N) (r : R) (v : V) : Prop where
  /-- A quorum has prevoted the value. -/
  polka : HasQuorum Q h .prevote r (some v)
  /-- The member has not precommitted another value in this round. -/
  once : ∀ w, ⟨n, .precommit, r, some w⟩ ∈ h → w = v
  /-- The member has not prevoted in a higher round. -/
  latest : ∀ r' w, ⟨n, .prevote, r', w⟩ ∈ h → r' ≤ r

/-- What a vote must respect, given the history before it. -/
def CastOk (h : List (Cast N V R)) : Cast N V R → Prop
  | ⟨n, .prevote, r, v⟩ => PrevoteOk Q h n r v
  | ⟨n, .precommit, r, some v⟩ => PrecommitOk Q h n r v
  | ⟨_, .precommit, _, none⟩ => True

/-- Every vote respected the discipline when it was cast. -/
def Lawful : List (Cast N V R) → Prop
  | [] => True
  | c :: h => CastOk Q h c ∧ Lawful h

variable {Q}

variable {h : List (Cast N V R)} {r : R} {v : V}

theorem Lawful.of_suffix {s : List (Cast N V R)} (hs : s <:+ h) (hl : Lawful Q h) : Lawful Q s := by
  induction h with
  | nil =>
    rw [List.suffix_nil.1 hs]
    trivial
  | cons _ _ ih =>
    rcases List.suffix_cons_iff.1 hs with rfl | hs
    · exact hl
    · exact ih hs hl.2

omit [LinearOrder R] in
/-- Of two votes of a history, the one was cast before the other. -/
theorem cast_before_or_after {s : List (Cast N V R)} {p q : Cast N V R} (hp : p :: s <:+ h)
    (hq : q ∈ h) (hne : q ≠ p) : q ∈ s ∨ ∃ t, q :: t <:+ h ∧ p ∈ t := by
  obtain ⟨_, rfl⟩ := hp
  rcases List.mem_append.1 hq with hl | hps
  · obtain ⟨a, b, rfl⟩ := List.append_of_mem hl
    exact .inr ⟨b ++ p :: s, ⟨a, by simp⟩, by simp⟩
  · exact .inl (List.mem_of_ne_of_mem hne hps)

/-- A member precommits one value a round. -/
theorem Lawful.precommit_unique (hl : Lawful Q h) {n : N}
    {w : V} (hv : ⟨n, .precommit, r, some v⟩ ∈ h) (hw : ⟨n, .precommit, r, some w⟩ ∈ h) :
    v = w := by
  induction h with
  | nil => simp at hv
  | cons _ _ ih =>
    rcases List.mem_cons.1 hv with rfl | hv'
    · rcases List.mem_cons.1 hw with hcw | hw'
      · simpa using (congrArg Cast.value hcw).symm
      · exact (hl.1.once w hw').symm
    · rcases List.mem_cons.1 hw with rfl | hw'
      · exact hl.1.once v hv'
      · exact ih hl.2 hv' hw'

/-- **No quorum turns away from a decided value**: once a quorum has precommitted `v` in round `r`,
every quorum of prevotes of a later round is for `v`.

The induction is on the length of the part of the history in which the quorum of prevotes stands.
A quorum against `v` shares a member with the quorum of precommits for `v`.  That member cannot
have precommitted after prevoting in the later round, so it prevoted after precommitting, and the
discipline gives a quorum against `v` that is older still. -/
theorem Lawful.no_turning_back {H : List (Cast N V R)} (hL : Lawful Q H)
    (hdec : HasQuorum Q H .precommit r (some v)) (k : Nat) :
    ∀ h : List (Cast N V R), h.length = k → h <:+ H → ∀ (r' : R) (v' : Option V), r < r' →
      HasQuorum Q h .prevote r' v' → v' = some v := by
  induction k using Nat.strong_induction_on with
  | _ k ih =>
    intro h hk hs r' v' hr hq
    by_contra hne
    obtain ⟨n, hpv, hpc⟩ := Q.meet _ _ hq hdec
    rw [Set.mem_ofPred_eq] at hpv hpc
    obtain ⟨a, s, rfl⟩ := List.append_of_mem hpv
    have hps : ⟨n, .prevote, r', v'⟩ :: s <:+ H := (List.suffix_append a _).trans hs
    rcases cast_before_or_after hps hpc (by simp) with hold | ⟨_, ht, hpt⟩
    · rcases (hL.of_suffix hps).1 r v hold hr with hv | ⟨r'', v'', hlt, hle, hv'', hq''⟩
      · exact hne hv
      · refine hv'' (ih s.length ?_ s rfl ((List.suffix_cons _ _).trans hps) r'' v'' hlt hq'')
        rw [← hk, List.length_append, List.length_cons]
        omega
    · have hle : r' ≤ r := (hL.of_suffix ht).1.latest r' v' hpt
      exact absurd hr (not_lt.2 hle)

/-- A precommit comes after its quorum of prevotes. -/
theorem Lawful.polka (hl : Lawful Q h) {n : N}
    (hm : ⟨n, .precommit, r, some v⟩ ∈ h) : ∃ s, s <:+ h ∧ HasQuorum Q s .prevote r (some v) := by
  obtain ⟨a, s, rfl⟩ := List.append_of_mem hm
  have hs : ⟨n, .precommit, r, some v⟩ :: s <:+ a ++ ⟨n, .precommit, r, some v⟩ :: s :=
    List.suffix_append a _
  exact ⟨s, (List.suffix_cons _ _).trans hs, (hl.of_suffix hs).1.polka⟩

/-- Decisions of different rounds agree. -/
theorem Lawful.agreement_of_lt (hl : Lawful Q h) {r' : R} {v' : V}
    (hr : r < r') (hv : HasQuorum Q h .precommit r (some v))
    (hv' : HasQuorum Q h .precommit r' (some v')) : v' = v := by
  obtain ⟨_, hn, -⟩ := Q.meet _ _ hv' hv'
  obtain ⟨s, hs, hq⟩ := hl.polka hn
  exact Option.some.inj (hl.no_turning_back hv s.length s rfl hs r' (some v') hr hq)

/-- **Agreement**: two values that quorums have precommitted are the same value. -/
theorem Lawful.agreement (hl : Lawful Q h) {r' : R} {v' : V}
    (hv : HasQuorum Q h .precommit r (some v)) (hv' : HasQuorum Q h .precommit r' (some v')) :
    v = v' := by
  rcases lt_trichotomy r r' with hlt | rfl | hgt
  · exact (hl.agreement_of_lt hlt hv hv').symm
  · obtain ⟨_, hn, hn'⟩ := Q.meet _ _ hv hv'
    exact hl.precommit_unique hn hn'
  · exact hl.agreement_of_lt hgt hv' hv

end VoteHistory
