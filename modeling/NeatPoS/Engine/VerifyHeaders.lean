import NeatPoS.Engine.VerifyHeader

/-!
# Verifying a batch of headers

`backend.VerifyHeaders` (`consensus/neatpos/engine.go`).  A goroutine verifies one header after the
other and looks at the abort channel between them.  It does not look at it inside `verifyHeader`,
and there it may wait: for the epoch switch, if the number of the header lies after the epoch of the
node, and this before the parent is looked for.  Whoever sends a header with a large number stops
the goroutine for good.

`verifyHeaders_stops_iff` says when this does not happen, and for which headers without a known
parent an error is reported.
-/

set_option autoImplicit false

namespace NeatPoS

namespace Backend

/-- The goroutine from one header on.  `looks i` is what it reads of the node while it verifies the
`i`th header.  `aborts` is what the `select` after each header comes to: it takes the case of the
abort channel, as it may once the channel is closed, or sends the result, for which there is always
room. -/
def verifyRest (looks : Nat → Backend) (done : List Header) :
    List Header → (aborts : List Bool) → Except Halt (List (Option VerifyError))
  | [], _ => .ok []
  | header :: rest, aborts =>
    match (looks done.length).verifyHeader header done with
    | .error halt => .error halt
    | .ok err =>
      if aborts.headD false then .ok []
      else (verifyRest looks (done ++ [header]) rest aborts.tail).map (err :: ·)

/-- `VerifyHeaders`: the results that are sent before the goroutine ends. -/
def verifyHeaders (looks : Nat → Backend) (headers : List Header) (aborts : List Bool) :
    Except Halt (List (Option VerifyError)) :=
  verifyRest looks [] headers aborts

/-- The header passes the checks before the wait. -/
structure Passes (sb : Backend) (h : Header) : Prop where
  number : h.number.isSome
  time : h.time.isSome
  extra : (extractNeatconExtra sb.lib h).isSome
  form : verifyHeaderForm sb.keccak h = none

/-- No epoch that the node comes to has the block, or every epoch is stored and none of them has
it. -/
structure Hangs (sb : Backend) (parents : List Header) (h : Header) : Prop where
  passes : sb.Passes h
  waits : (sb.epochs ≠ [] ∧ ∀ e ∈ sb.epochs, e.endBlock < h.numberU64) ∨
    ∃ epoch, sb.waitForEpoch h.numberU64 = .ok epoch ∧ h.numberU64 ≠ 0 ∧
      sb.KnowsParent parents h ∧ epoch.covers h.numberU64 = false ∧
      ∀ number < 2 ^ 64, ∃ e, sb.loadOneEpoch number = some e ∧ e.covers h.numberU64 = false

variable {sb : Backend} {h : Header} {parents : List Header} {epoch : Epoch}

/-! ## One header -/

theorem verifyHeader_of_passes (hp : sb.Passes h) (parents : List Header) :
    sb.verifyHeader h parents = (sb.waitForEpoch h.numberU64).bind fun epoch =>
      (sb.verifyCascadingFields epoch h parents).bind fun err =>
        .ok (err.or (sb.verifyMainChainNumber h)) := by
  obtain ⟨_, hn⟩ := Option.isSome_iff_exists.1 hp.number
  obtain ⟨_, ht⟩ := Option.isSome_iff_exists.1 hp.time
  obtain ⟨_, hte⟩ := Option.isSome_iff_exists.1 hp.extra
  simp only [verifyHeader, hn, ht, hte, hp.form, Option.isNone_some, Bool.false_eq_true, if_false]
  cases sb.waitForEpoch h.numberU64 with
  | error => rfl
  | ok epoch =>
    rcases hc : sb.verifyCascadingFields epoch h parents with _ | (_ | _) <;>
      simp [hc, bind, Except.bind, pure, Except.pure]

/-- A header that does not pass is refused, unless its time is nil. -/
theorem verifyHeader_of_not_passes (hp : ¬ sb.Passes h) (parents : List Header) :
    (∃ e, sb.verifyHeader h parents = .ok (some e)) ∧ (h.number = none ∨ h.time ≠ none) ∨
      sb.verifyHeader h parents = .error (.panic .nilDereference) ∧ h.number ≠ none ∧
        h.time = none := by
  rw [verifyHeader]
  cases hn : h.number with
  | none => simp [pure, Except.pure]
  | some =>
    cases ht : h.time with
    | none => simp [bind, Except.bind, throw, throwThe, MonadExceptOf.throw]
    | some =>
      cases hte : extractNeatconExtra sb.lib h with
      | none => simp [pure, Except.pure]
      | some =>
        cases hform : verifyHeaderForm sb.keccak h with
        | some => simp [pure, Except.pure]
        | none => exact absurd ⟨by simp [hn], by simp [ht], by simp [hte], hform⟩ hp

theorem waitForEpoch_eq_forever {n : Nat} :
    sb.waitForEpoch n = .error .forever ↔ sb.epochs ≠ [] ∧ ∀ e ∈ sb.epochs, e.endBlock < n := by
  rw [waitForEpoch]
  cases sb.epochs with
  | nil => simp
  | cons first later =>
    dsimp only
    cases hfind : (first :: later).find? fun e => decide (n ≤ e.endBlock) with
    | none => simpa using hfind
    | some e =>
      have hle := List.find?_some hfind
      have hmem := List.mem_of_find?_eq_some hfind
      simp only [reduceCtorEq, false_iff, not_and]
      exact fun _ hall ↦ absurd (hall e hmem) (Nat.not_lt.2 (of_decide_eq_true hle))

/-- The lookup does not end if every epoch is stored and none of them has the block. -/
theorem getEpochByBlockNumber_eq_forever {load : Nat → Option Epoch} {n : Nat} :
    Epoch.getEpochByBlockNumber load epoch n = .error .forever ↔
      epoch.covers n = false ∧ ∀ number < 2 ^ 64, ∃ e, load number = some e ∧ e.covers n = false := by
  have hloop : ∀ fuel m, m < 2 ^ 64 →
      (∀ number < 2 ^ 64, ∃ e, load number = some e ∧ e.covers n = false) →
        Epoch.getEpochLoop load n fuel m = .error .forever := by
    intro fuel m hm hall
    induction fuel generalizing m with
    | zero => rfl
    | succ _ ih =>
      obtain ⟨e, he, hc⟩ := hall m hm
      simp only [Epoch.getEpochLoop, he, hc, Bool.false_eq_true, if_false]
      exact ih _ (Nat.mod_lt _ (by decide))
  have hprev : prevU64 epoch.number < 2 ^ 64 := Nat.mod_lt _ (by decide)
  rw [Epoch.getEpochByBlockNumber]
  by_cases hc : epoch.covers n = true
  · simp [hc]
  rw [if_neg hc]
  constructor
  · intro h
    refine ⟨Bool.eq_false_iff.2 hc, fun number hnumber ↦ ?_⟩
    obtain ⟨j, hj, rfl⟩ := Epoch.exists_iterate_prevU64 hnumber hprev
    exact Epoch.getEpochLoop_forever h j hj
  · exact fun h ↦ hloop _ _ hprev h.2

/-- What is made of the parent. -/
theorem verifyCascadingFields_cases (sb : Backend) (epoch : Epoch) (parents : List Header)
    (h0 : h.numberU64 ≠ 0) :
    sb.KnowsParent parents h ∧
        sb.verifyCascadingFields epoch h parents = sb.verifyCommittedSeals epoch h ∨
      ¬ sb.KnowsParent parents h ∧
        (sb.verifyCascadingFields epoch h parents = .ok (some .unknownAncestor) ∧
            (∀ parent, sb.parentOf h parents = some parent → parent.number ≠ none) ∨
          sb.verifyCascadingFields epoch h parents = .error (.panic .nilDereference) ∧
            ∃ parent, sb.parentOf h parents = some parent ∧ parent.number = none) := by
  rw [verifyCascadingFields, if_neg h0, KnowsParent]
  cases hparent : sb.parentOf h parents with
  | none => simp
  | some parent =>
    cases hnum : parent.number with
    | none => simp [hnum]
    | some =>
      by_cases hlink : parent.numberU64 = prevU64 h.numberU64 ∧ parent.hash sb.keccak = h.parentHash
      · simp [hnum, hlink.1, hlink.2]
      have hbad : parent.numberU64 ≠ prevU64 h.numberU64 ∨
          parent.hash sb.keccak ≠ h.parentHash := by
        rw [← not_and_or]
        exact hlink
      simp [hnum, hbad, hlink]

theorem verifyCommittedSeals_eq_forever (hp : sb.Passes h) (epoch : Epoch) :
    sb.verifyCommittedSeals epoch h = .error .forever ↔
      Epoch.getEpochByBlockNumber sb.loadOneEpoch epoch h.numberU64 = .error .forever := by
  obtain ⟨_, hte⟩ := Option.isSome_iff_exists.1 hp.extra
  rw [verifyCommittedSeals, hte]
  rcases hep : Epoch.getEpochByBlockNumber sb.loadOneEpoch epoch h.numberU64 with
    - | (_ | _)
  · simp [bind, Except.bind]
  · simp [bind, Except.bind, pure, Except.pure]
  · simp only [bind, Except.bind, pure, Except.pure, throw, throwThe, MonadExceptOf.throw,
      reduceCtorEq, iff_false]
    repeat' split
    all_goals simp

/-- **The headers that are never done with.** -/
theorem verifyHeader_eq_forever :
    sb.verifyHeader h parents = .error .forever ↔ sb.Hangs parents h := by
  by_cases hp : sb.Passes h
  · have hwait := @waitForEpoch_eq_forever sb h.numberU64
    rw [verifyHeader_of_passes hp]
    cases hepoch : sb.waitForEpoch h.numberU64 with
    | error =>
      rw [hepoch, Except.error.injEq] at hwait
      simp only [Except.bind, Except.error.injEq]
      constructor
      · exact fun he ↦ ⟨hp, .inl (hwait.1 he)⟩
      · rintro ⟨-, hw | ⟨epoch, hw, -⟩⟩
        · exact hwait.2 hw
        · rw [hepoch] at hw
          cases hw
    | ok epoch =>
      rw [hepoch] at hwait
      have hseals := (verifyCommittedSeals_eq_forever hp epoch).trans
        getEpochByBlockNumber_eq_forever
      constructor
      · intro he
        refine ⟨hp, .inr ⟨epoch, hepoch, ?_⟩⟩
        by_cases h0 : h.numberU64 = 0
        · simp [verifyCascadingFields, h0, Except.bind] at he
        rcases verifyCascadingFields_cases sb epoch parents h0 with
          ⟨hknows, hc⟩ | ⟨-, ⟨hc, -⟩ | ⟨hc, -⟩⟩
        · rcases hs : sb.verifyCommittedSeals epoch h with halt | _
          · simp only [Except.bind, hc, hs] at he
            rw [hs, he] at hseals
            exact ⟨h0, hknows, hseals.1 rfl⟩
          · simp [Except.bind, hc, hs] at he
        · simp [Except.bind, hc] at he
        · simp [Except.bind, hc] at he
      · rintro ⟨-, hw | ⟨_, hw, h0, hknows, hcov⟩⟩
        · exact absurd (hwait.2 hw) (by simp)
        rw [hepoch] at hw
        cases hw
        rcases verifyCascadingFields_cases sb epoch parents h0 with ⟨-, hc⟩ | ⟨hnot, -⟩
        · simp [Except.bind, hc, hseals.2 hcov]
        · exact absurd hknows hnot
  · have hne : ¬ sb.Hangs parents h := fun hh ↦ hp hh.passes
    rcases verifyHeader_of_not_passes hp parents with ⟨⟨_, he⟩, -⟩ | ⟨he, -⟩ <;> simp [he, hne]

/-- **Which headers without a known parent are reported.**  Those of number 0 are not asked for a
parent. -/
theorem reported_iff (hunknown : ¬ sb.KnowsParent parents h) :
    (∃ e, sb.verifyHeader h parents = .ok (some e)) ↔
      (sb.Passes h → (∃ epoch, sb.waitForEpoch h.numberU64 = .ok epoch) ∧
        (h.numberU64 = 0 → sb.verifyMainChainNumber h ≠ none) ∧
        (h.numberU64 ≠ 0 →
          ∀ parent, sb.parentOf h parents = some parent → parent.number ≠ none)) ∧
      (¬ sb.Passes h → h.number = none ∨ h.time ≠ none) := by
  by_cases hp : sb.Passes h
  · simp only [hp, true_implies, not_true_eq_false, false_implies, and_true]
    rw [verifyHeader_of_passes hp]
    cases hepoch : sb.waitForEpoch h.numberU64 with
    | error => simp [Except.bind]
    | ok epoch =>
      by_cases h0 : h.numberU64 = 0
      · simp [Except.bind, verifyCascadingFields, h0, Option.ne_none_iff_exists']
      rcases (verifyCascadingFields_cases sb epoch parents h0).resolve_left
        fun hk ↦ hunknown hk.1 with ⟨-, ⟨hc, hparent⟩ | ⟨hc, parent, hparent, hnum⟩⟩
      · simpa [Except.bind, hc, h0] using hparent
      · simp only [Except.bind, hc, reduceCtorEq, exists_false, false_iff, not_and]
        exact fun _ _ hall ↦ hall h0 parent hparent hnum
  · simp only [hp, false_implies, not_false_eq_true, true_implies, true_and]
    rcases verifyHeader_of_not_passes hp parents with ⟨he, hn⟩ | ⟨he, hn, ht⟩
    · exact iff_of_true he hn
    · simp [he, hn, ht]

/-! ## The batch -/

/-- No header that the goroutine comes to is never done with. -/
def NeverHangs (looks : Nat → Backend) (done : List Header) : List Header → Prop
  | [] => True
  | header :: rest =>
    ¬ (looks done.length).Hangs done header ∧
      ((∃ err, (looks done.length).verifyHeader header done = .ok err) →
        NeverHangs looks (done ++ [header]) rest)

theorem verifyRest_ne_forever {looks : Nat → Backend} {done headers : List Header} :
    (∀ aborts, verifyRest looks done headers aborts ≠ .error .forever) ↔
      NeverHangs looks done headers := by
  induction headers generalizing done with
  | nil => simp [verifyRest, NeverHangs]
  | cons header rest ih =>
    rw [NeverHangs, ← ih, ← verifyHeader_eq_forever]
    cases hv : (looks done.length).verifyHeader header done with
    | error => simp [verifyRest, hv]
    | ok err =>
      simp only [verifyRest, hv]
      constructor
      · intro hall
        refine ⟨by simp, fun _ aborts hrest ↦ ?_⟩
        exact absurd (hall (false :: aborts)) (by simp [hrest, Except.map])
      · rintro ⟨-, hrest⟩ aborts
        split
        · simp
        · cases hr : verifyRest looks (done ++ [header]) rest aborts.tail with
          | error => simpa [Except.map, hr] using hrest ⟨err, rfl⟩ aborts.tail
          | ok => simp [Except.map]

/-- **The goroutine ends**, whenever it is aborted, exactly if it comes to no header that is never
done with; and a header without a known parent is reported exactly if it is refused for its form, or
an epoch with its number is reached, it is not of number 0 and its parent has a number. -/
theorem verifyHeaders_stops_iff (looks : Nat → Backend) (headers : List Header) :
    ((∀ aborts, verifyHeaders looks headers aborts ≠ .error .forever) ↔
      NeverHangs looks [] headers) ∧
    ∀ (sb : Backend) (parents : List Header) (h : Header), ¬ sb.KnowsParent parents h →
      ((∃ e, sb.verifyHeader h parents = .ok (some e)) ↔
        (sb.Passes h → (∃ epoch, sb.waitForEpoch h.numberU64 = .ok epoch) ∧
          (h.numberU64 = 0 → sb.verifyMainChainNumber h ≠ none) ∧
          (h.numberU64 ≠ 0 →
            ∀ parent, sb.parentOf h parents = some parent → parent.number ≠ none)) ∧
        (¬ sb.Passes h → h.number = none ∨ h.time ≠ none)) :=
  ⟨verifyRest_ne_forever, fun _ _ _ hunknown ↦ reported_iff hunknown⟩

/-- A header of a block after the epoch. -/
def farAhead : Header := { Stray.header [1] [1] with number := some 100 }

/-- A node that stays in its first epoch never returns from a header of block 100, not even if it
is aborted at once.  The parent of the header is unknown. -/
theorem verifyHeaders_never_stops :
    verifyHeaders (fun _ => Stray.node) [farAhead] [true] = .error .forever ∧
      ¬ Stray.node.KnowsParent [] farAhead ∧
        ¬ ∃ e, Stray.node.verifyHeader farAhead [] = .ok (some e) := by
  have hforever : Stray.node.verifyHeader farAhead [] = .error .forever := by decide +kernel
  refine ⟨by decide +kernel, ?_, by simp [hforever]⟩
  rintro ⟨_, hparent, -⟩
  cases hparent

end Backend

end NeatPoS
