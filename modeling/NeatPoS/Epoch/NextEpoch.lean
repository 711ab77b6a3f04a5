import NeatPoS.Consensus.Transitions
import NeatPoS.Core.Genesis
import NeatPoS.Epoch.Orders
import NeatPoS.Epoch.Propose

/-!
# The next epoch reaches the nodes

A proposer puts the next epoch into its block, and every node that inserts the block takes it from
there: `updateLocalEpoch` and `autoStartMining` (`state/execution.go`) run whenever a block is
inserted, and `ShouldEnterNewEpoch` asks for the next epoch when the last block of the epoch is
executed.

The three do not fit together.  `ShouldProposeNextEpoch` lets a proposer propose in any block after
the first one, and `defaultDoPrevote` accepts a block without a proposal at any height; but
`updateLocalEpoch` takes a proposal from one block only, the second one of the epoch (and from block
2).  If the proposer of that block leaves it out, no later block helps.  One block before the end
of the epoch `autoStartMining` then uses a next epoch that is nil.  `switches_iff` says that nothing
else can go wrong: the epoch is switched if and only if that one block carries the next epoch.

The callbacks are kept in a map, so that either may run first.  Restarts are part of the model,
since the next epoch is in memory and in the database.  The current and the previous epoch are saved
whenever they change, and a restart does not change them.
-/

set_option autoImplicit false

namespace NeatPoS

/-! ## The callbacks -/

/-- The epochs as a node knows them. -/
structure LocalEpoch where
  epoch : Epoch
  /-- The `nextEpoch` field of the epoch. -/
  nextEpoch : Option Epoch
  /-- The next epoch in the database. -/
  saved : Option Epoch
  previousEpoch : Option Epoch

/-- `EPOCH_VOTED_NOT_SAVED` -/
def epochVotedNotSaved : Int := 2

/-- `EPOCH_SAVED` -/
def epochSaved : Int := 3

/-- A block that is inserted. -/
structure Insertion where
  number : Nat
  epochBytes : Bytes
  /-- What `DryRunUpdateEpochValidatorSet` makes of the current validators. -/
  nextValidators : ValidatorSet
  /-- `updateLocalEpoch` runs before `autoStartMining`. -/
  epochFirst : Bool
  /-- The node is restarted before the block comes. -/
  restart : Bool

namespace LocalEpoch

/-- `GetNextEpoch`: looks into the database if the field is nil. -/
def getNextEpoch (l : LocalEpoch) : LocalEpoch := { l with nextEpoch := l.nextEpoch.or l.saved }

/-- `Save`, as far as the next epoch is concerned. -/
def save (l : LocalEpoch) : LocalEpoch :=
  match l.nextEpoch with
  | none => l
  | some next =>
    if next.status = epochVotedNotSaved then
      { l with
        nextEpoch := some { next with status := epochSaved }
        saved := some { next with status := epochSaved } }
    else l

/-- `updateLocalEpoch`, when the block holds the next epoch. -/
def updateNext (l : LocalEpoch) (number : Nat) (epochInBlock : Epoch) : Except Panic LocalEpoch :=
  if number = l.epoch.startBlock + 1 ∨ number = 2 then
    .ok { l with nextEpoch := some { epochInBlock with status := epochVotedNotSaved } }.save
  else if number = l.epoch.endBlock then
    let l := l.getNextEpoch
    match l.nextEpoch with
    | none => .error .nilDereference
    | some nextEp =>
      .ok { l with nextEpoch := some { nextEp with
        validators := epochInBlock.validators, status := epochVotedNotSaved } }.save
  else .ok l.save

/-- `updateLocalEpoch`, when the block holds the current epoch, with the time at which it began. -/
def updateStartTime (l : LocalEpoch) (epochInBlock : Epoch) : Except Panic LocalEpoch :=
  let l := { l with epoch := { l.epoch with startTime := epochInBlock.startTime } }.save
  if 0 < l.epoch.number then
    match l.previousEpoch with
    | none => .error .nilDereference
    | some previous =>
      .ok { l with previousEpoch := some { previous with endTime := epochInBlock.startTime } }
  else .ok l

/-- `updateLocalEpoch`. -/
def updateLocalEpoch (fromBytes : Bytes → Option Epoch) (b : Insertion) (l : LocalEpoch) :
    Except Panic LocalEpoch :=
  if b.number = 0 then .ok l
  else
    match fromBytes b.epochBytes with
    | none => .ok l
    | some epochInBlock =>
      if epochInBlock.number = l.epoch.number + 1 then l.updateNext b.number epochInBlock
      else if epochInBlock.number = l.epoch.number then l.updateStartTime epochInBlock
      else .ok l

/-- `autoStartMining`, less the event that it posts. -/
def autoStartMining (b : Insertion) (l : LocalEpoch) : Except Panic LocalEpoch :=
  if b.number + 1 = l.epoch.endBlock then
    let l := l.getNextEpoch
    match l.nextEpoch with
    | none => .error .nilDereference
    | some nextEp => .ok { l with nextEpoch := some { nextEp with validators := b.nextValidators } }
  else .ok l

/-- `LoadOneEpoch`, after a restart. -/
def reload (b : Insertion) (l : LocalEpoch) : LocalEpoch :=
  if b.restart then { l with nextEpoch := l.saved } else l

/-- The callbacks of `insert`. -/
def insertBlock (fromBytes : Bytes → Option Epoch) (b : Insertion) (l : LocalEpoch) :
    Except Panic LocalEpoch :=
  if b.epochFirst then l.updateLocalEpoch fromBytes b >>= autoStartMining b
  else l.autoStartMining b >>= updateLocalEpoch fromBytes b

/-- Blocks before the last one of the epoch. -/
def insertAll (fromBytes : Bytes → Option Epoch) : List Insertion → LocalEpoch →
    Except Panic LocalEpoch
  | [], l => .ok l
  | b :: bs, l => (l.reload b).insertBlock fromBytes b >>= insertAll fromBytes bs

/-- `EnterNewEpoch`; nil if there is no next epoch.  Nothing has been saved of the epoch after. -/
def enterNewEpoch (now : Int) (newValidators : ValidatorSet) (l : LocalEpoch) : Option LocalEpoch :=
  l.nextEpoch.map fun next =>
    { epoch := { next with startTime := now, validators := newValidators }
      nextEpoch := none
      saved := none
      previousEpoch := some { l.epoch with endTime := now } }

end LocalEpoch

/-- The blocks of an epoch, and what is there when the last one is executed. -/
structure EpochRun where
  blocks : List Insertion
  last : Insertion
  rt : Runtime
  db : StateDB
  /-- The votes for the next epoch. -/
  votes : Option EpochValidatorVoteSet
  now : Int

namespace LocalEpoch

/-- The last block of the epoch: `ShouldEnterNewEpoch` when it is executed, then the callbacks when
it is inserted, then `EnterNewEpoch` if the epoch is to be switched. -/
def endEpoch (fromBytes : Bytes → Option Epoch) (e : EpochRun) (l : LocalEpoch) :
    Except Panic (Option LocalEpoch) :=
  let l := (l.reload e.last).getNextEpoch
  match (shouldEnterNewEpoch e.rt l.epoch (l.nextEpoch.map fun _ => e.votes) e.last.number e.db).2 with
  | .enter newValidators =>
    (l.insertBlock fromBytes e.last).map (enterNewEpoch e.now newValidators)
  | _ => (l.insertBlock fromBytes e.last).map fun _ => none

end LocalEpoch

/-- The first block that is inserted in an epoch; the genesis block is not. -/
def Epoch.firstBlock (epoch : Epoch) : Nat := max epoch.startBlock 1

/-- The blocks are those of the epoch, in order. -/
structure EpochRun.Spans (e : EpochRun) (epoch : Epoch) : Prop where
  first_le : epoch.firstBlock ≤ epoch.endBlock
  blocks : e.blocks.map (·.number) =
    List.range' epoch.firstBlock (epoch.endBlock - epoch.firstBlock)
  last : e.last.number = epoch.endBlock

/-- The local epochs that a node comes to, from genesis. -/
inductive LocalEpoch.Reached (fromBytes : Bytes → Option Epoch) : LocalEpoch → Prop
  | genesis (epoch : Epoch) (h : epoch.number = 0) : Reached fromBytes ⟨epoch, none, none, none⟩
  | switch {l l₁ l' : LocalEpoch} (h : Reached fromBytes l) (e : EpochRun) (hspan : e.Spans l.epoch)
      (hblocks : l.insertAll fromBytes e.blocks = .ok l₁)
      (hswitch : l₁.endEpoch fromBytes e = .ok (some l')) : Reached fromBytes l'

/-! ## What an insertion does -/

/-- The block carries the next epoch, and is one of those from which it is taken. -/
def Insertion.Carries (fromBytes : Bytes → Option Epoch) (b : Insertion) (epoch : Epoch) : Prop :=
  (b.number = epoch.startBlock + 1 ∨ b.number = 2) ∧
    ∃ next, fromBytes b.epochBytes = some next ∧ next.number = epoch.number + 1

/-- It does so in time: in the block before the last, `autoStartMining` must not come first. -/
def Insertion.Timely (fromBytes : Bytes → Option Epoch) (b : Insertion) (epoch : Epoch) : Prop :=
  b.Carries fromBytes epoch ∧ (b.number + 1 = epoch.endBlock → b.epochFirst = true)

namespace LocalEpoch

/-- The next epoch is in memory if it is in the database, and there is a previous epoch. -/
structure Ready (l : LocalEpoch) : Prop where
  saved : l.saved.isSome = l.nextEpoch.isSome
  previous : 0 < l.epoch.number → l.previousEpoch.isSome = true

/-- The node has a next epoch. -/
def Known (l : LocalEpoch) : Prop := l.nextEpoch.isSome = true

/-- What an insertion makes of the epochs of a node: it stays in its epoch, and has a next one if it
had one before or if `p` holds. -/
structure Effect (l : LocalEpoch) (p : Prop) (l' : LocalEpoch) : Prop where
  number : l'.epoch.number = l.epoch.number
  startBlock : l'.epoch.startBlock = l.epoch.startBlock
  endBlock : l'.epoch.endBlock = l.epoch.endBlock
  ready : l'.Ready
  known : l'.Known ↔ l.Known ∨ p

variable {fromBytes : Bytes → Option Epoch} {b : Insertion} {e : EpochRun} {l l' l'' : LocalEpoch}
  {p q : Prop}

theorem Ready.effect (h : l.Ready) (hp : ¬p) : l.Effect p l :=
  ⟨rfl, rfl, rfl, h, (or_iff_left hp).symm⟩

theorem Effect.trans (h : l.Effect p l') (h' : l'.Effect q l'') : l.Effect (p ∨ q) l'' where
  number := h'.number.trans h.number
  startBlock := h'.startBlock.trans h.startBlock
  endBlock := h'.endBlock.trans h.endBlock
  ready := h'.ready
  known := by rw [h'.known, h.known, or_assoc]

theorem Effect.congr (h : l.Effect p l') (hpq : p ↔ q) : l.Effect q l' :=
  { h with known := h.known.trans (or_congr_right hpq) }

theorem carries_congr {epoch epoch' : Epoch} (hnumber : epoch'.number = epoch.number)
    (hstart : epoch'.startBlock = epoch.startBlock) :
    b.Carries fromBytes epoch' ↔ b.Carries fromBytes epoch := by
  rw [Insertion.Carries, Insertion.Carries, hnumber, hstart]

section

variable (h : l.Ready)
include h

/-- `Save` has no effect of its own. -/
theorem Ready.save : l.Effect False l.save := by
  unfold LocalEpoch.save
  split
  · exact h.effect id
  rename_i next hnext
  split
  · refine ⟨rfl, rfl, rfl, ⟨rfl, h.previous⟩, ?_⟩
    simp [Known, hnext]
  · exact h.effect id

/-- A next epoch that is set anew and saved. -/
theorem Ready.save_next (next : Epoch) :
    l.Effect True
      { l with nextEpoch := some { next with status := epochVotedNotSaved } }.save := by
  have hsave : { l with nextEpoch := some { next with status := epochVotedNotSaved } }.save =
      { l with
        nextEpoch := some { next with status := epochSaved }
        saved := some { next with status := epochSaved } } := by
    simp [LocalEpoch.save]
  rw [hsave]
  exact ⟨rfl, rfl, rfl, ⟨rfl, h.previous⟩, by simp [Known]⟩

theorem Ready.getNextEpoch : l.getNextEpoch = l := by
  have hor : l.nextEpoch.or l.saved = l.nextEpoch := by
    cases hnext : l.nextEpoch with
    | some => rfl
    | none =>
      have hsaved := h.saved
      rw [hnext] at hsaved
      simpa using hsaved
  rw [LocalEpoch.getNextEpoch, hor]

theorem Ready.reload (b : Insertion) : l.Effect False (l.reload b) := by
  unfold LocalEpoch.reload
  split
  · refine ⟨rfl, rfl, rfl, ⟨rfl, h.previous⟩, ?_⟩
    rw [or_false, Known, Known, h.saved]
  · exact h.effect id

/-- The proposal of a block is taken from the second block of the epoch and from block 2. -/
theorem Ready.updateNext {number : Nat} (hend : number = l.epoch.endBlock → l.Known)
    (epochInBlock : Epoch) :
    ∃ l', l.updateNext number epochInBlock = .ok l' ∧
      l.Effect (number = l.epoch.startBlock + 1 ∨ number = 2) l' := by
  unfold LocalEpoch.updateNext
  by_cases hnumber : number = l.epoch.startBlock + 1 ∨ number = 2
  · rw [if_pos hnumber]
    exact ⟨_, rfl, (h.save_next epochInBlock).congr (iff_of_true trivial hnumber)⟩
  rw [if_neg hnumber]
  by_cases hlast : number = l.epoch.endBlock
  · obtain ⟨next, hnext⟩ := Option.isSome_iff_exists.1 (hend hlast)
    rw [if_pos hlast, h.getNextEpoch]
    simp only [hnext]
    refine ⟨_, rfl, ?_⟩
    have heffect := h.save_next { next with validators := epochInBlock.validators }
    exact { heffect with known := heffect.known.trans (by simp [hend hlast]) }
  · rw [if_neg hlast]
    exact ⟨_, rfl, h.save.congr (iff_of_false id hnumber)⟩

theorem Ready.updateStartTime (epochInBlock : Epoch) :
    ∃ l', l.updateStartTime epochInBlock = .ok l' ∧ l.Effect False l' := by
  have hready : Ready { l with epoch := { l.epoch with startTime := epochInBlock.startTime } } :=
    ⟨h.saved, h.previous⟩
  have hsave := hready.save
  unfold LocalEpoch.updateStartTime
  generalize LocalEpoch.save _ = l₁ at hsave ⊢
  have heffect : l.Effect False l₁ :=
    ⟨hsave.number, hsave.startBlock, hsave.endBlock, hsave.ready, hsave.known⟩
  dsimp only
  by_cases hpos : 0 < l₁.epoch.number
  · obtain ⟨previous, hprevious⟩ := Option.isSome_iff_exists.1 (hsave.ready.previous hpos)
    rw [if_pos hpos, hprevious]
    exact ⟨_, rfl, { heffect with ready := ⟨heffect.ready.saved, fun _ => rfl⟩ }⟩
  · rw [if_neg hpos]
    exact ⟨_, rfl, heffect⟩

/-- `updateLocalEpoch` gives the node a next epoch if and only if the block carries it. -/
theorem Ready.updateLocalEpoch (fromBytes : Bytes → Option Epoch)
    (hend : b.number = l.epoch.endBlock → l.Known) :
    ∃ l', l.updateLocalEpoch fromBytes b = .ok l' ∧
      l.Effect (b.Carries fromBytes l.epoch) l' := by
  unfold LocalEpoch.updateLocalEpoch
  by_cases hzero : b.number = 0
  · rw [if_pos hzero]
    exact ⟨l, rfl, h.effect fun hcarries => by have := hcarries.1; omega⟩
  rw [if_neg hzero]
  cases hbytes : fromBytes b.epochBytes with
  | none =>
    refine ⟨l, rfl, h.effect ?_⟩
    rintro ⟨-, _, hnext, -⟩
    cases hbytes.symm.trans hnext
  | some epochInBlock =>
    have hcarries : b.Carries fromBytes l.epoch ↔
        (b.number = l.epoch.startBlock + 1 ∨ b.number = 2) ∧
          epochInBlock.number = l.epoch.number + 1 := by
      simp [Insertion.Carries, hbytes]
    dsimp only
    by_cases hnext : epochInBlock.number = l.epoch.number + 1
    · rw [if_pos hnext]
      obtain ⟨l', hl', heffect⟩ := h.updateNext hend epochInBlock
      exact ⟨l', hl', heffect.congr (hcarries.trans (and_iff_left hnext)).symm⟩
    rw [if_neg hnext]
    have hno : ¬b.Carries fromBytes l.epoch := fun hc => hnext (hcarries.1 hc).2
    by_cases hcurrent : epochInBlock.number = l.epoch.number
    · rw [if_pos hcurrent]
      obtain ⟨l', hl', heffect⟩ := h.updateStartTime epochInBlock
      exact ⟨l', hl', heffect.congr (iff_of_false id hno)⟩
    · rw [if_neg hcurrent]
      exact ⟨l, rfl, h.effect hno⟩

theorem Ready.autoStartMining (hknown : b.number + 1 = l.epoch.endBlock → l.Known) :
    ∃ l', l.autoStartMining b = .ok l' ∧ l.Effect False l' := by
  unfold LocalEpoch.autoStartMining
  by_cases hlast : b.number + 1 = l.epoch.endBlock
  · obtain ⟨_, hnext⟩ := Option.isSome_iff_exists.1 (hknown hlast)
    have hsaved := h.saved
    rw [hnext] at hsaved
    rw [if_pos hlast, h.getNextEpoch]
    simp only [hnext]
    exact ⟨_, rfl, rfl, rfl, rfl, ⟨hsaved, h.previous⟩, by simp [Known, hnext]⟩
  · rw [if_neg hlast]
    exact ⟨l, rfl, h.effect id⟩

/-- Without a next epoch, the node does not get beyond the block before the last. -/
theorem Ready.autoStartMining_panics (hlast : b.number + 1 = l.epoch.endBlock)
    (hknown : ¬l.Known) : l.autoStartMining b = .error .nilDereference := by
  have hnone : l.nextEpoch = none := by simpa [Known] using hknown
  unfold LocalEpoch.autoStartMining
  rw [if_pos hlast, h.getNextEpoch]
  simp only [hnone]

theorem Ready.insertBlock (fromBytes : Bytes → Option Epoch)
    (hend : b.number = l.epoch.endBlock → l.Known)
    (hlast : b.number + 1 = l.epoch.endBlock → l.Known ∨ b.Timely fromBytes l.epoch) :
    ∃ l', l.insertBlock fromBytes b = .ok l' ∧ l.Effect (b.Carries fromBytes l.epoch) l' := by
  unfold LocalEpoch.insertBlock
  by_cases hfirst : b.epochFirst = true
  · obtain ⟨l₁, hl₁, heffect⟩ := h.updateLocalEpoch fromBytes hend
    have hknown : b.number + 1 = l₁.epoch.endBlock → l₁.Known := by
      intro hnumber
      rw [heffect.endBlock] at hnumber
      exact heffect.known.2 ((hlast hnumber).imp_right (·.1))
    obtain ⟨l', hl', heffect'⟩ := heffect.ready.autoStartMining hknown
    rw [if_pos hfirst, hl₁]
    exact ⟨l', hl', (heffect.trans heffect').congr (or_iff_left id)⟩
  · have hknown : b.number + 1 = l.epoch.endBlock → l.Known := fun hnumber =>
      (hlast hnumber).resolve_right fun htimely => hfirst (htimely.2 hnumber)
    obtain ⟨l₁, hl₁, heffect⟩ := h.autoStartMining hknown
    obtain ⟨l', hl', heffect'⟩ := heffect.ready.updateLocalEpoch fromBytes (b := b)
      fun hnumber => heffect.known.2 (.inl (hend (hnumber.trans heffect.endBlock)))
    have hcarries : b.Carries fromBytes l₁.epoch ↔ b.Carries fromBytes l.epoch :=
      carries_congr heffect.number heffect.startBlock
    rw [if_neg hfirst, hl₁]
    exact ⟨l', hl', (heffect.trans heffect').congr ((or_iff_right id).trans hcarries)⟩

theorem Ready.insertBlock_panics (hlast : b.number + 1 = l.epoch.endBlock)
    (hno : ¬(l.Known ∨ b.Timely fromBytes l.epoch)) :
    l.insertBlock fromBytes b = .error .nilDereference := by
  rw [not_or] at hno
  unfold LocalEpoch.insertBlock
  by_cases hfirst : b.epochFirst = true
  · obtain ⟨l₁, hl₁, heffect⟩ := h.updateLocalEpoch fromBytes (b := b) (by omega)
    have hunknown : ¬l₁.Known := by
      rw [heffect.known]
      exact not_or.2 ⟨hno.1, fun hcarries => hno.2 ⟨hcarries, fun _ => hfirst⟩⟩
    rw [if_pos hfirst, hl₁]
    exact heffect.ready.autoStartMining_panics (hlast.trans heffect.endBlock.symm) hunknown
  · rw [if_neg hfirst, h.autoStartMining_panics hlast hno.1]
    rfl

end

/-! ## A whole epoch -/

theorem timely_congr {epoch epoch' : Epoch} (hnumber : epoch'.number = epoch.number)
    (hstart : epoch'.startBlock = epoch.startBlock) (hend : epoch'.endBlock = epoch.endBlock) :
    b.Timely fromBytes epoch' ↔ b.Timely fromBytes epoch := by
  rw [Insertion.Timely, Insertion.Timely, carries_congr hnumber hstart, hend]

/-- A node gets through the blocks before the last one, and then has a next epoch, if and only if
one of them has carried it in time. -/
theorem Ready.insertAll (fromBytes : Bytes → Option Epoch) (bs : List Insertion) :
    ∀ {l : LocalEpoch} {first : Nat}, l.Ready →
    bs.map (·.number) = List.range' first (l.epoch.endBlock - first) →
    ((∃ l', l.insertAll fromBytes bs = .ok l' ∧ l'.Known) ↔
      l.Known ∨ ∃ b ∈ bs, b.Timely fromBytes l.epoch) ∧
    ∀ l', l.insertAll fromBytes bs = .ok l' → ∃ p, l.Effect p l' := by
  induction bs with
  | nil =>
    intro l first h _
    refine ⟨⟨?_, ?_⟩, ?_⟩
    · rintro ⟨l', hl', hknown⟩
      cases hl'
      exact .inl hknown
    · rintro (hknown | ⟨b, hb, -⟩)
      · exact ⟨l, rfl, hknown⟩
      · cases hb
    · intro l' hl'
      cases hl'
      exact ⟨False, h.effect id⟩
  | cons b bs ih =>
    intro l first h hrange
    obtain ⟨n, hn⟩ : ∃ n, l.epoch.endBlock - first = n + 1 := by
      refine Nat.exists_eq_add_one.2 (Nat.pos_of_ne_zero fun hzero => ?_)
      rw [hzero] at hrange
      cases hrange
    rw [hn, List.range'_succ, List.map_cons, List.cons.injEq] at hrange
    obtain ⟨hnumber, hrest⟩ := hrange
    have hload := h.reload b
    have htimely : b.Timely fromBytes (l.reload b).epoch ↔ b.Timely fromBytes l.epoch :=
      timely_congr hload.number hload.startBlock hload.endBlock
    have hknown : (l.reload b).Known ↔ l.Known := hload.known.trans (or_iff_left id)
    rw [LocalEpoch.insertAll]
    by_cases hok : b.number + 1 = l.epoch.endBlock → l.Known ∨ b.Timely fromBytes l.epoch
    · -- the block is inserted, and the rest follows from the state it leaves
      obtain ⟨l₁, hl₁, heffect⟩ := hload.ready.insertBlock fromBytes (b := b)
        (by rw [hload.endBlock]; omega)
        (by rw [hload.endBlock, hknown, htimely]; exact hok)
      have heffect' := (hload.trans heffect).congr
        ((or_iff_right id).trans (carries_congr hload.number hload.startBlock))
      have hlen : l₁.epoch.endBlock - (first + 1) = n := by
        rw [heffect'.endBlock]
        omega
      obtain ⟨hiff, hframe⟩ := ih heffect'.ready (hlen ▸ hrest)
      have hb : l.Known ∨ b.Carries fromBytes l.epoch ↔ l.Known ∨ b.Timely fromBytes l.epoch := by
        by_cases hlast : b.number + 1 = l.epoch.endBlock
        · exact iff_of_true ((hok hlast).imp_right (·.1)) (hok hlast)
        · exact or_congr_right (and_iff_left fun hlast' => absurd hlast' hlast).symm
      have hbs : (∃ b ∈ bs, b.Timely fromBytes l₁.epoch) ↔ ∃ b ∈ bs, b.Timely fromBytes l.epoch :=
        exists_congr fun _ => and_congr_right fun _ =>
          timely_congr heffect'.number heffect'.startBlock heffect'.endBlock
      rw [hl₁]
      refine ⟨hiff.trans ?_, ?_⟩
      · simp only [heffect'.known, hb, hbs, List.mem_cons, exists_eq_or_imp, or_assoc]
      · intro l' hl'
        obtain ⟨p, hp⟩ := hframe l' hl'
        exact ⟨_, heffect'.trans hp⟩
    · -- it is the block before the last, and there is no next epoch
      rw [Classical.not_imp] at hok
      obtain ⟨hlast, hno⟩ := hok
      obtain rfl : bs = [] := by
        have hzero : n = 0 := by omega
        rw [hzero] at hrest
        exact List.map_eq_nil_iff.1 hrest
      rw [hload.ready.insertBlock_panics (hlast.trans hload.endBlock.symm)
        (by rw [hknown, htimely]; exact hno)]
      refine ⟨iff_of_false ?_ ?_, ?_⟩
      · rintro ⟨l', hl', -⟩
        cases hl'
      · simpa only [List.mem_singleton, exists_eq_left] using hno
      · intro l' hl'
        cases hl'

theorem Known.enterNewEpoch (h : l.Known) (now : Int) (newValidators : ValidatorSet) :
    ∃ l', l.enterNewEpoch now newValidators = some l' := by
  refine Option.isSome_iff_exists.1 ?_
  rw [LocalEpoch.enterNewEpoch, Option.isSome_map]
  exact h

/-- The last block switches the epoch if there is a next one. -/
theorem Ready.endEpoch (fromBytes : Bytes → Option Epoch) (h : l.Ready)
    (hlast : e.last.number = l.epoch.endBlock) (hknown : l.Known) :
    ∃ l', l.endEpoch fromBytes e = .ok (some l') := by
  have hload := h.reload e.last
  have hknown' : (l.reload e.last).Known := hload.known.2 (.inl hknown)
  obtain ⟨_, hnext⟩ := Option.isSome_iff_exists.1 hknown'
  obtain ⟨_, hl₁, heffect⟩ := hload.ready.insertBlock fromBytes (b := e.last)
    (fun _ => hknown') (fun _ => .inl hknown')
  unfold LocalEpoch.endEpoch
  rw [hload.ready.getNextEpoch]
  simp only [hnext, Option.map_some, shouldEnterNewEpoch, hlast.trans hload.endBlock.symm, if_true,
    hl₁]
  obtain ⟨l', hl'⟩ := (heffect.known.2 (.inl hknown')).enterNewEpoch e.now
    (NeatPoS.enterNewEpoch e.rt (l.reload e.last).epoch.validators e.votes e.db).2
  exact ⟨l', congrArg Except.ok hl'⟩

/-- A node that enters a new epoch has left the old one with a next epoch, and starts without. -/
theorem enterNewEpoch_ready {now : Int} {newValidators : ValidatorSet}
    (h : l.enterNewEpoch now newValidators = some l') : l'.Ready ∧ ¬l'.Known := by
  obtain ⟨_, -, rfl⟩ := Option.map_eq_some_iff.1 h
  exact ⟨⟨rfl, fun _ => rfl⟩, by simp [Known]⟩

theorem endEpoch_ok (h : l.endEpoch fromBytes e = .ok (some l')) : l'.Ready ∧ ¬l'.Known := by
  unfold LocalEpoch.endEpoch at h
  dsimp only at h
  generalize (l.reload e.last).getNextEpoch.insertBlock fromBytes e.last = r at h
  split at h
  · cases r with
    | error => cases h
    | ok => exact enterNewEpoch_ready (Except.ok.inj h)
  · cases r with
    | error | ok => cases h

/-- A node begins an epoch without the next one. -/
theorem Reached.ready (h : Reached fromBytes l) : l.Ready ∧ ¬l.Known := by
  cases h with
  | genesis _ hzero => exact ⟨⟨rfl, fun hpos => absurd hzero (Nat.ne_of_gt hpos)⟩, by simp [Known]⟩
  | switch _ _ _ _ hswitch => exact endEpoch_ok hswitch

/-- **When the epoch is switched.**  In every epoch that a node comes to: it gets to the last block
with a next epoch, and switches, if and only if a block from which the next epoch is taken has
carried it, and in time. -/
theorem switches_iff (h : Reached fromBytes l) (e : EpochRun) (hspan : e.Spans l.epoch) :
    (∃ l₁ l', l.insertAll fromBytes e.blocks = .ok l₁ ∧ l₁.nextEpoch.isSome = true ∧
      l₁.endEpoch fromBytes e = .ok (some l')) ↔
      ∃ b ∈ e.blocks, b.Timely fromBytes l.epoch := by
  obtain ⟨hready, hunknown⟩ := h.ready
  obtain ⟨hiff, hframe⟩ := hready.insertAll fromBytes e.blocks hspan.blocks
  constructor
  · rintro ⟨l₁, l', hl₁, hknown, -⟩
    exact (hiff.1 ⟨l₁, hl₁, hknown⟩).resolve_left hunknown
  intro htimely
  obtain ⟨l₁, hl₁, hknown⟩ := hiff.2 (.inr htimely)
  obtain ⟨_, heffect⟩ := hframe l₁ hl₁
  obtain ⟨l', hl'⟩ := heffect.ready.endEpoch fromBytes (e := e)
    (hspan.last.trans heffect.endBlock.symm) hknown
  exact ⟨l₁, l', hl₁, hknown, hl'⟩

/-! ### An epoch of four blocks -/

namespace FourBlocks

/-- The first epoch ends with block 4. -/
def first : LocalEpoch := ⟨epochOf 0 0 4 0 0, none, none, none⟩

/-- The one byte that stands for epoch 1. -/
def decode (buf : Bytes) : Option Epoch := if buf = [1] then some (epochOf 1 5 8 0 0) else none

def block (number : Nat) (epochBytes : Bytes) : Insertion where
  number := number
  epochBytes := epochBytes
  nextValidators := ⟨[]⟩
  epochFirst := true
  restart := false

/-- The first epoch, with what the second block holds. -/
def run (epochBytes : Bytes) : EpochRun where
  blocks := [block 1 [], block 2 epochBytes, block 3 []]
  last := block 4 []
  rt := .sorted
  db := .new
  votes := none
  now := 0

theorem switches_second_block :
    ∃ l₁ l', insertAll decode (run [1]).blocks first = .ok l₁ ∧
      l₁.nextEpoch.isSome = true ∧ l₁.endEpoch decode (run [1]) = .ok (some l') := by
  have hreached : Reached decode first := .genesis _ rfl
  refine (switches_iff hreached (run [1]) ⟨by decide, rfl, rfl⟩).2 ⟨block 2 [1], ?_, ?_⟩
  · exact List.mem_cons_of_mem _ List.mem_cons_self
  · exact ⟨⟨.inr rfl, epochOf 1 5 8 0 0, rfl, rfl⟩, fun _ => rfl⟩

/-- The block is accepted without a next epoch, and the node stops at block 3. -/
theorem accepted_and_stopped :
    (∀ (env : Env) (cs : ConsensusState) (block : TdmBlock) (te : NeatconExtra),
      block.ncExtra = some te → env.epochFromBytes te.epochBytes = none →
      nextEpochOk env cs block = .ok true) ∧
    decode [] = none ∧
    insertAll decode (run []).blocks first =
      .error .nilDereference := by
  refine ⟨?_, rfl, rfl⟩
  intro env cs block te hextra hbytes
  rw [nextEpochOk, hextra]
  simp only [hbytes]

end FourBlocks

end LocalEpoch

end NeatPoS
