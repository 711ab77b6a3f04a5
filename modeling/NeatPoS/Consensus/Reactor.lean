import NeatPoS.Consensus.Runs

/-!
# What peers can do to a node

`ConsensusReactor.Receive` (`consensus/neatpos/consensus/reactor.go`) takes the bytes that a peer
has sent on one of the channels, notes in the `PeerState` what they say about the peer, and passes
proposals, block parts, aggregates and votes on to the state machine.  All of this happens before
any signature is looked at.

* `receive_returns_iff` says exactly which bytes `Receive` survives.  It does not survive the empty
  message, nor a message around a nil pointer, nor a type of vote that does not exist.
* `handleMsg` does not survive a nil vote in any state (`handle_nil_vote`), and a proposal of a
  negative round in hardly any (`handle_negative_round`).  It returns from the messages that it
  ignores (`handle_ignored`).  A message that it rejects has changed the round state only if it was
  stored before it was found at fault (`rejected_unchanged`).
* `safe_iff` draws the conclusion: a node is safe from its peers as long as it is not running.

The bit arrays come from common-go.  As the source notes where it uses them, a nil array has no
effects; what the functions do on other arrays, in particular on those that a peer has made up, is
left open (`BitArrays`).
-/

set_option autoImplicit false

namespace NeatPoS

open Stateful

/-! ## Messages and peers -/

/-- The functions of common-go on bit arrays. -/
structure BitArrays (β : Type) where
  /-- `NewBitArray`, which may return nil. -/
  newBitArray : Nat → Except Panic (Option β)
  /-- `SetIndex(index, true)`, on an array that is not nil. -/
  setIndex : β → Nat → Except Panic β

/-- `ConsensusMessage`.  The two messages about vote sets are decoded and ignored. -/
inductive ConsensusMessage (β : Type) where
  | newRoundStep (height : Nat) (round : Int) (step : Nat)
  | commitStep (height : Nat) (blockPartsHeader : PartSetHeader) (blockParts : Option β)
  | hasVote (height : Nat) (round : Int) (type : VoteType) (index : Int)
  | proposalPOL (height : Nat) (proposalPOLRound : Int) (proposalPOL : Option β)
  | voteSetMaj23
  | voteSetBits
  /-- Those that are passed on to the state machine. -/
  | passed (m : Msg)

/-- `PeerRoundState`, less `StartTime`. -/
structure PeerRoundState (β : Type) where
  height : Nat
  round : Int
  step : Nat
  proposal : Bool
  proposalBlockPartsHeader : PartSetHeader
  proposalBlockParts : Option β
  proposalPOLRound : Int
  proposalPOL : Option β
  prevotes : Option β
  precommits : Option β
  prevoteMaj23SignAggr : Bool
  precommitMaj23SignAggr : Bool

/-- The state that `NewPeerState` gives to a peer. -/
def PeerRoundState.new {β : Type} : PeerRoundState β :=
  ⟨0, -1, 0, false, ⟨0, []⟩, none, -1, none, none, none, false, false⟩

/-- `consensus.Peer`: its key, and the state it has been given. -/
structure Peer (β : Type) where
  key : String
  state : Option (PeerRoundState β)

/-- `ConsensusReactor`. -/
structure ConsensusReactor (β : Type) where
  /-- `IsRunning` -/
  running : Bool
  arrays : BitArrays β
  /-- wire-go: `ReadBinary` of a message.  There may be an error, or a nil message. -/
  readMessage : Bytes → Option (Option (ConsensusMessage β))
  /-- The keys of `peerStates`. -/
  peerStates : List String
  conS : ConsensusState

/-- The channels. -/
def stateChannel : Nat := 0x20

def dataChannel : Nat := 0x21

def voteChannel : Nat := 0x22

/-- The conversion of an index, an `int`, to a `uint64`. -/
def indexU64 (i : Int) : Nat := (i % 2 ^ 64).toNat

/-! ## The peer state -/

namespace BitArrays

variable {β : Type} (arrays : BitArrays β)

/-- `SetIndex(index, true)`. -/
def mark (array : Option β) (index : Nat) : Except Panic (Option β) :=
  match array with
  | none => .ok none
  | some b => (arrays.setIndex b index).map some

/-- An array that is nil is replaced by a new one. -/
def ensure (array : Option β) (size : Nat) : Except Panic (Option β) :=
  match array with
  | none => arrays.newBitArray size
  | some b => .ok (some b)

end BitArrays

namespace PeerRoundState

variable {β : Type} (arrays : BitArrays β) (ps : PeerRoundState β)

/-- `SetHasProposal`. -/
def setHasProposal (proposal : Option Proposal) : Except Panic (PeerRoundState β) :=
  match proposal with
  | none => .error .nilDereference
  | some p =>
    if ps.height ≠ p.height ∨ ps.round < p.round then .ok ps
    else if ps.round = p.round ∧ ps.proposal then .ok ps
    else do
      let parts ← arrays.newBitArray p.blockPartsHeader.total
      pure { ps with
        proposal := true
        proposalBlockPartsHeader := p.blockPartsHeader
        proposalBlockParts := parts
        proposalPOLRound := p.polRound
        proposalPOL := none
        prevoteMaj23SignAggr := false
        precommitMaj23SignAggr := false }

/-- `SetHasProposalBlockPart`, for a part that may be nil. -/
def setHasProposalBlockPart (height : Nat) (round : Int) (part : Option Part) :
    Except Panic (PeerRoundState β) :=
  match part with
  | none => .error .nilDereference
  | some part =>
    if ps.height ≠ height ∨ ps.round ≠ round then .ok ps
    else do
      let parts ← arrays.mark ps.proposalBlockParts (indexU64 part.index)
      pure { ps with proposalBlockParts := parts }

/-- `SetHasMaj23SignAggr`. -/
def setHasMaj23SignAggr (signAggr : Option SignAggr) : Except Panic (PeerRoundState β) :=
  match signAggr with
  | none => .error .nilDereference
  | some sa =>
    if ps.height ≠ sa.height ∨ ps.round ≠ sa.round then .ok ps
    else match sa.type with
      | .prevote => .ok { ps with prevoteMaj23SignAggr := true }
      | .precommit => .ok { ps with precommitMaj23SignAggr := true }
      | .other _ => .error (.explicit "Invalid signAggr type %d")

/-- `EnsureVoteBitArrays`. -/
def ensureVoteBitArrays (height numValidators : Nat) : Except Panic (PeerRoundState β) :=
  if ps.height ≠ height then .ok ps
  else do
    let prevotes ← arrays.ensure ps.prevotes numValidators
    let precommits ← arrays.ensure ps.precommits numValidators
    let proposalPOL ← arrays.ensure ps.proposalPOL numValidators
    pure { ps with prevotes, precommits, proposalPOL }

/-- `setHasVote`, with `getVoteBitArray`. -/
def setHasVote (height : Nat) (round : Int) (type : VoteType) (index : Int) :
    Except Panic (PeerRoundState β) :=
  match type with
  | .other _ => .error (.panicSanity "Invalid vote type")
  | .prevote =>
    if ps.height ≠ height then .ok ps
    else if ps.round = round then
      (arrays.mark ps.prevotes (indexU64 index)).map fun prevotes => { ps with prevotes }
    else if ps.proposalPOLRound = round then
      (arrays.mark ps.proposalPOL (indexU64 index)).map fun proposalPOL => { ps with proposalPOL }
    else .ok ps
  | .precommit =>
    if ps.height ≠ height then .ok ps
    else if ps.round = round then
      (arrays.mark ps.precommits (indexU64 index)).map fun precommits => { ps with precommits }
    else .ok ps

/-- `SetHasVote`. -/
def setHasVoteOf (vote : Option Vote) : Except Panic (PeerRoundState β) :=
  match vote with
  | none => .error .nilDereference
  | some v => ps.setHasVote arrays v.height v.round v.type v.validatorIndex

/-- `ApplyNewRoundStepMessage`.  `CompareHRS` only compares heights. -/
def applyNewRoundStepMessage (height : Nat) (round : Int) (step : Nat) : PeerRoundState β :=
  if height < ps.height then ps
  else if ps.height ≠ height ∨ ps.round ≠ round then
    { ps with
      height, round, step
      proposal := false, proposalBlockPartsHeader := ⟨0, []⟩, proposalBlockParts := none
      proposalPOLRound := -1, proposalPOL := none, prevotes := none, precommits := none }
  else { ps with height, round, step }

/-- `ApplyCommitStepMessage`. -/
def applyCommitStepMessage (height : Nat) (header : PartSetHeader) (parts : Option β) :
    PeerRoundState β :=
  if ps.height ≠ height then ps
  else { ps with proposalBlockPartsHeader := header, proposalBlockParts := parts }

/-- `ApplyProposalPOLMessage`. -/
def applyProposalPOLMessage (height : Nat) (polRound : Int) (pol : Option β) : PeerRoundState β :=
  if ps.height ≠ height ∨ ps.proposalPOLRound ≠ polRound then ps
  else { ps with proposalPOL := pol }

/-- `ApplyHasVoteMessage`. -/
def applyHasVoteMessage (height : Nat) (round : Int) (type : VoteType) (index : Int) :
    Except Panic (PeerRoundState β) :=
  if ps.height ≠ height then .ok ps else ps.setHasVote arrays height round type index

end PeerRoundState

/-! ## Receive -/

namespace ConsensusReactor

variable {β : Type} (conR : ConsensusReactor β)

/-- `DecodeMessage`, which looks at the first byte before anything else. -/
def decodeMessage (bz : Bytes) : Except Panic (Option (Option (ConsensusMessage β))) :=
  if bz.isEmpty then .error .indexOutOfRange else .ok (conR.readMessage bz)

/-- The state of a peer, which `AddPeer` gives to one that has none, unless its key is empty or in
use. -/
def peerState (src : Peer β) : Except Panic (PeerRoundState β) :=
  match src.state with
  | some ps => .ok ps
  | none =>
    if src.key ∈ conR.peerStates ∨ src.key = "" then .error .nilDereference
    else .ok PeerRoundState.new

/-- The messages of the state channel. -/
def onStateChannel (msg : Option (ConsensusMessage β)) (ps : PeerRoundState β) :
    Except Panic (PeerRoundState β × Option Msg) :=
  match msg with
  | some (.newRoundStep height round step) =>
    .ok (ps.applyNewRoundStepMessage height round step, none)
  | some (.commitStep height header parts) =>
    .ok (ps.applyCommitStepMessage height header parts, none)
  | some (.hasVote height round type index) =>
    (ps.applyHasVoteMessage conR.arrays height round type index).map (·, none)
  | _ => .ok (ps, none)

/-- The messages of the data channel. -/
def onDataChannel (msg : Option (ConsensusMessage β)) (ps : PeerRoundState β) :
    Except Panic (PeerRoundState β × Option Msg) :=
  match msg with
  | some (.passed (.proposal p)) =>
    (ps.setHasProposal conR.arrays p).map (·, some (.proposal p))
  | some (.proposalPOL height polRound pol) =>
    .ok (ps.applyProposalPOLMessage height polRound pol, none)
  | some (.passed (.blockPart height round part)) =>
    (ps.setHasProposalBlockPart conR.arrays height round part).map
      (·, some (.blockPart height round part))
  | some (.passed (.maj23SignAggr sa)) =>
    (ps.setHasMaj23SignAggr sa).map (·, some (.maj23SignAggr sa))
  | _ => .ok (ps, none)

/-- The messages of the vote channel. -/
def onVoteChannel (msg : Option (ConsensusMessage β)) (ps : PeerRoundState β) :
    Except Panic (PeerRoundState β × Option Msg) :=
  match msg with
  | some (.passed (.vote v)) => do
    let ps ← ps.ensureVoteBitArrays conR.arrays conR.conS.height conR.conS.validators.size
    (ps.setHasVoteOf conR.arrays v).map (·, some (.vote v))
  | _ => .ok (ps, none)

/-- The switch of `Receive`: the new state of the peer, and what is passed on. -/
def dispatch (chID : Nat) (msg : Option (ConsensusMessage β)) (ps : PeerRoundState β) :
    Except Panic (PeerRoundState β × Option Msg) :=
  if chID = stateChannel then conR.onStateChannel msg ps
  else if chID = dataChannel then conR.onDataChannel msg ps
  else if chID = voteChannel then conR.onVoteChannel msg ps
  else .ok (ps, none)

/-- `Receive`: the state of the peer afterwards, and what is passed on. -/
def receive (chID : Nat) (src : Peer β) (msgBytes : Bytes) :
    Except Panic (Option (PeerRoundState β) × Option Msg) :=
  if !conR.running then .ok (src.state, none)
  else do
    match ← conR.decodeMessage msgBytes with
    | none => pure (src.state, none)
    | some msg =>
      let ps ← conR.peerState src
      let (ps, passed) ← conR.dispatch chID msg ps
      pure (some ps, passed)

/-! ## What Receive survives -/

/-- `NewBitArray` works for this size. -/
def Allots (size : Nat) : Prop := ∃ b, conR.arrays.newBitArray size = .ok b

/-- `SetIndex` works on this array. -/
def Marks (array : Option β) (index : Int) : Prop :=
  ∀ b, array = some b → ∃ b', conR.arrays.setIndex b (indexU64 index) = .ok b'

/-- The note that the peer has a vote can be made. -/
def NotesVote (ps : PeerRoundState β) (height : Nat) (round : Int) (type : VoteType)
    (index : Int) : Prop :=
  type.isVoteTypeValid = true ∧ (ps.height = height →
    (ps.round = round → type = .prevote → conR.Marks ps.prevotes index) ∧
    (ps.round = round → type = .precommit → conR.Marks ps.precommits index) ∧
    (ps.round ≠ round → ps.proposalPOLRound = round → type = .prevote →
      conR.Marks ps.proposalPOL index))

/-- What it takes for a message to be noted. -/
def Survives (chID : Nat) (ps : PeerRoundState β) (msg : Option (ConsensusMessage β)) : Prop :=
  (chID = stateChannel → ∀ height round type index,
    msg = some (.hasVote height round type index) → ps.height = height →
      conR.NotesVote ps height round type index) ∧
  (chID = dataChannel → ∀ p, msg = some (.passed (.proposal p)) →
    ∃ q, p = some q ∧ (ps.height = q.height → q.round ≤ ps.round →
      ¬ (ps.round = q.round ∧ ps.proposal = true) → conR.Allots q.blockPartsHeader.total)) ∧
  (chID = dataChannel → ∀ height round part, msg = some (.passed (.blockPart height round part)) →
    ∃ q, part = some q ∧
      (ps.height = height → ps.round = round → conR.Marks ps.proposalBlockParts q.index)) ∧
  (chID = dataChannel → ∀ sa, msg = some (.passed (.maj23SignAggr sa)) →
    ∃ q, sa = some q ∧
      (ps.height = q.height → ps.round = q.round → q.type.isVoteTypeValid = true)) ∧
  (chID = voteChannel → ∀ v, msg = some (.passed (.vote v)) → ∃ q ps', v = some q ∧
    ps.ensureVoteBitArrays conR.arrays conR.conS.height conR.conS.validators.size = .ok ps' ∧
    conR.NotesVote ps' q.height q.round q.type q.validatorIndex)

variable {conR} {ps : PeerRoundState β}

theorem returns_mark {array : Option β} {index : Int} :
    Returns (conR.arrays.mark array (indexU64 index)) ↔ conR.Marks array index := by
  cases array with
  | none => simp [BitArrays.mark, Marks]
  | some =>
    rw [BitArrays.mark, returns_map]
    simp [Marks, Returns]

theorem returns_setHasVote {height : Nat} {round : Int} {type : VoteType} {index : Int} :
    Returns (ps.setHasVote conR.arrays height round type index) ↔
      conR.NotesVote ps height round type index := by
  rw [PeerRoundState.setHasVote.eq_def, NotesVote]
  by_cases hheight : ps.height = height
  · by_cases hround : ps.round = round
    · cases type <;> simp [hheight, hround, returns_mark, VoteType.isVoteTypeValid]
    · by_cases hpol : ps.proposalPOLRound = round
      · cases type <;> simp [hheight, hround, hpol, returns_mark, VoteType.isVoteTypeValid]
      · cases type <;> simp [hheight, hround, hpol, VoteType.isVoteTypeValid]
  · cases type <;> simp [hheight, VoteType.isVoteTypeValid]

theorem returns_setHasProposal {p : Option Proposal} :
    Returns (ps.setHasProposal conR.arrays p) ↔
      ∃ q, p = some q ∧ (ps.height = q.height → q.round ≤ ps.round →
        ¬ (ps.round = q.round ∧ ps.proposal = true) → conR.Allots q.blockPartsHeader.total) := by
  cases p with
  | none => simp [PeerRoundState.setHasProposal]
  | some q =>
    simp only [PeerRoundState.setHasProposal, Option.some.injEq, exists_eq_left']
    by_cases happlies : ps.height = q.height ∧ q.round ≤ ps.round
    · rw [if_neg (by omega)]
      by_cases hknown : ps.round = q.round ∧ ps.proposal = true
      · simp [hknown]
      · rw [if_neg hknown, returns_bind]
        simp [happlies, hknown, Allots, pure, Except.pure]
    · rw [if_pos (by omega)]
      simp only [returns_ok, true_iff]
      exact fun h₁ h₂ ↦ absurd ⟨h₁, h₂⟩ happlies

theorem returns_setHasProposalBlockPart {height : Nat} {round : Int} {part : Option Part} :
    Returns (ps.setHasProposalBlockPart conR.arrays height round part) ↔
      ∃ q, part = some q ∧
        (ps.height = height → ps.round = round → conR.Marks ps.proposalBlockParts q.index) := by
  cases part with
  | none => simp [PeerRoundState.setHasProposalBlockPart]
  | some =>
    simp only [PeerRoundState.setHasProposalBlockPart, Option.some.injEq, exists_eq_left']
    by_cases happlies : ps.height = height ∧ ps.round = round
    · rw [if_neg (by omega), returns_bind]
      simp only [happlies, pure, Except.pure, returns_ok, and_true, forall_const]
      exact returns_mark
    · rw [if_pos (by omega)]
      simp only [returns_ok, true_iff]
      exact fun h₁ h₂ ↦ absurd ⟨h₁, h₂⟩ happlies

theorem returns_setHasMaj23SignAggr {sa : Option SignAggr} :
    Returns (ps.setHasMaj23SignAggr sa) ↔ ∃ q, sa = some q ∧
      (ps.height = q.height → ps.round = q.round → q.type.isVoteTypeValid = true) := by
  cases sa with
  | none => simp [PeerRoundState.setHasMaj23SignAggr]
  | some q =>
    simp only [PeerRoundState.setHasMaj23SignAggr, Option.some.injEq, exists_eq_left']
    by_cases happlies : ps.height = q.height ∧ ps.round = q.round
    · cases q.type <;> simp [happlies, VoteType.isVoteTypeValid]
    · rw [if_pos (by omega)]
      simp only [returns_ok, true_iff]
      exact fun h₁ h₂ ↦ absurd ⟨h₁, h₂⟩ happlies

variable {msg : Option (ConsensusMessage β)}

theorem returns_onStateChannel :
    Returns (conR.onStateChannel msg ps) ↔ ∀ height round type index,
      msg = some (.hasVote height round type index) → ps.height = height →
        conR.NotesVote ps height round type index := by
  rw [onStateChannel.eq_def]
  split
  · simp
  · simp
  · rename_i height round type index
    rw [returns_map, PeerRoundState.applyHasVoteMessage]
    by_cases hheight : ps.height = height
    · rw [if_neg (not_not.2 hheight), returns_setHasVote]
      constructor
      · rintro h _ _ _ _ ⟨⟩ -
        exact h
      · exact fun h ↦ h _ _ _ _ rfl hheight
    · rw [if_pos hheight]
      refine iff_of_true (returns_ok _) ?_
      rintro _ _ _ _ ⟨⟩ h
      exact absurd h hheight
  · rename_i hne
    refine iff_of_true (returns_ok _) fun height round type index hmsg ↦ ?_
    exact absurd hmsg (hne height round type index)

theorem returns_onDataChannel :
    Returns (conR.onDataChannel msg ps) ↔
      (∀ p, msg = some (.passed (.proposal p)) →
        ∃ q, p = some q ∧ (ps.height = q.height → q.round ≤ ps.round →
          ¬ (ps.round = q.round ∧ ps.proposal = true) → conR.Allots q.blockPartsHeader.total)) ∧
      (∀ height round part, msg = some (.passed (.blockPart height round part)) →
        ∃ q, part = some q ∧
          (ps.height = height → ps.round = round → conR.Marks ps.proposalBlockParts q.index)) ∧
      (∀ sa, msg = some (.passed (.maj23SignAggr sa)) → ∃ q, sa = some q ∧
        (ps.height = q.height → ps.round = q.round → q.type.isVoteTypeValid = true)) := by
  rw [onDataChannel.eq_def]
  split
  · rw [returns_map, returns_setHasProposal]
    constructor
    · refine fun h ↦ ⟨?_, nofun, nofun⟩
      rintro _ ⟨⟩
      exact h
    · exact fun h ↦ h.1 _ rfl
  · exact iff_of_true (returns_ok _) ⟨nofun, nofun, nofun⟩
  · rw [returns_map, returns_setHasProposalBlockPart]
    constructor
    · refine fun h ↦ ⟨nofun, ?_, nofun⟩
      rintro _ _ _ ⟨⟩
      exact h
    · exact fun h ↦ h.2.1 _ _ _ rfl
  · rw [returns_map, returns_setHasMaj23SignAggr]
    constructor
    · refine fun h ↦ ⟨nofun, nofun, ?_⟩
      rintro _ ⟨⟩
      exact h
    · exact fun h ↦ h.2.2 _ rfl
  · rename_i hp _ hb hs
    exact iff_of_true (returns_ok _) ⟨fun p h ↦ absurd h (hp p),
      fun height round part h ↦ absurd h (hb height round part), fun sa h ↦ absurd h (hs sa)⟩

theorem returns_onVoteChannel :
    Returns (conR.onVoteChannel msg ps) ↔
      ∀ v, msg = some (.passed (.vote v)) → ∃ q ps', v = some q ∧
        ps.ensureVoteBitArrays conR.arrays conR.conS.height conR.conS.validators.size = .ok ps' ∧
        conR.NotesVote ps' q.height q.round q.type q.validatorIndex := by
  rw [onVoteChannel.eq_def]
  split
  · rename_i v
    rw [returns_bind]
    constructor
    · rintro ⟨ps', hps', h⟩ _ ⟨⟩
      cases v with
      | none => simp [PeerRoundState.setHasVoteOf] at h
      | some q => exact ⟨q, ps', rfl, hps', returns_setHasVote.1 (returns_map.1 h)⟩
    · intro h
      obtain ⟨q, ps', rfl, hps', hnotes⟩ := h v rfl
      exact ⟨ps', hps', returns_map.2 (returns_setHasVote.2 hnotes)⟩
  · rename_i hne
    exact iff_of_true (returns_ok _) fun v h ↦ absurd h (hne v)

theorem returns_dispatch {chID : Nat} :
    Returns (conR.dispatch chID msg ps) ↔ conR.Survives chID ps msg := by
  have hdata : dataChannel ≠ stateChannel := by decide
  have hvote : voteChannel ≠ stateChannel ∧ voteChannel ≠ dataChannel := by decide
  rw [dispatch, Survives]
  by_cases hstate : chID = stateChannel
  · subst hstate
    simp only [if_true, hdata.symm, hvote.1.symm, false_implies, and_true, forall_const]
    exact returns_onStateChannel
  · by_cases hdata' : chID = dataChannel
    · subst hdata'
      simp only [if_true, hdata, hvote.2.symm, false_implies, and_true, true_and, forall_const]
      exact returns_onDataChannel
    · by_cases hvote' : chID = voteChannel
      · subst hvote'
        simp only [if_true, hvote.1, hvote.2, false_implies, true_and, forall_const]
        exact returns_onVoteChannel
      · simp [hstate, hdata', hvote']

/-- **What Receive survives.**  A reactor that is running survives bytes that are not empty and, if
they are a message, one that can be noted. -/
theorem receive_returns_iff {chID : Nat} {src : Peer β} {msgBytes : Bytes} :
    Returns (conR.receive chID src msgBytes) ↔ (conR.running = true → msgBytes ≠ [] ∧
      ∀ msg, conR.readMessage msgBytes = some msg →
        ∃ ps, conR.peerState src = .ok ps ∧ conR.Survives chID ps msg) := by
  rw [receive]
  cases hrun : conR.running with
  | false => simp
  | true =>
    rw [if_neg (by simp)]
    by_cases hempty : msgBytes = []
    · rw [decodeMessage, if_pos (by simp [hempty])]
      exact iff_of_false (not_returns_error _) fun h ↦ (h rfl).1 hempty
    have hdecode : conR.decodeMessage msgBytes = .ok (conR.readMessage msgBytes) :=
      if_neg (by simp [hempty])
    rw [hdecode]
    cases conR.readMessage msgBytes with
    | none => exact iff_of_true (returns_ok _) fun _ ↦ ⟨hempty, nofun⟩
    | some msg =>
      show Returns (conR.peerState src >>= fun ps ↦ conR.dispatch chID msg ps >>= fun x ↦
        .ok (some x.1, x.2)) ↔ _
      rw [returns_bind]
      constructor
      · rintro ⟨ps, hps, h⟩ -
        obtain ⟨x, hx, -⟩ := returns_bind.1 h
        refine ⟨hempty, ?_⟩
        rintro _ ⟨⟩
        exact ⟨ps, hps, returns_dispatch.1 ⟨x, hx⟩⟩
      · intro h
        obtain ⟨ps, hps, hsurvives⟩ := (h rfl).2 msg rfl
        obtain ⟨x, hx⟩ := returns_dispatch.2 hsurvives
        exact ⟨ps, hps, returns_bind.2 ⟨x, hx, returns_ok _⟩⟩

end ConsensusReactor

/-! ## What handleMsg survives -/

/-- No state survives a vote that is nil. -/
theorem handle_nil_vote (env : Env) (key : String) (cs : ConsensusState) :
    endError (handle env (.msg (.vote none) key)) cs = some .nilDereference :=
  rfl

/-- Before the signature of a proposal is checked, its proposer is looked up.  For a round below
zero there is none, unless the index of the first proposer happens to make up for it. -/
theorem handle_negative_round (env : Env) (key : String) (cs : ConsensusState) (p : Proposal)
    (happlies : proposalApplies cs p = true) (hround : p.round < 0)
    (hindex : cs.vrfValIndex < 0 ∨ cs.validators.size = 0 ∨
      (int64 (cs.vrfValIndex + p.round)).tmod cs.validators.size < 0) :
    endError (handle env (.msg (.proposal (some p)) key)) cs ≠ none := by
  have hproposer : ∃ e, proposerByRound env p.round cs = .error e cs := by
    rw [proposerByRound, get_bind_apply, if_neg (by omega)]
    by_cases hneg : cs.vrfValIndex < 0
    · rw [if_pos hneg]
      exact ⟨_, rfl⟩
    rw [if_neg hneg]
    by_cases hsize : cs.validators.size = 0
    · rw [if_pos hsize]
      exact ⟨_, rfl⟩
    · have hout := (hindex.resolve_left hneg).resolve_left hsize
      rw [if_neg hsize, proposerAt, if_pos (.inr hout)]
      exact ⟨_, rfl⟩
  obtain ⟨e, he⟩ := hproposer
  have hset : handle env (.msg (.proposal (some p)) key) cs = .error e cs := by
    rw [handle, defaultSetProposal, get_bind_apply]
    simp only [happlies, Bool.not_true, Bool.false_eq_true, if_false, bind, EStateM.bind, he]
  rw [endError, hset]
  simp

/-- `handleMsg` has no use for the message: it is about another height or round, it is not accepted,
or there is nothing that it could be added to. -/
def ignores (env : Env) (cs : ConsensusState) : Msg → Prop
  | .proposal none => cs.proposal ≠ none
  | .proposal (some p) => proposalApplies cs p = false
  | .blockPart height round _ =>
    cs.height ≠ height ∨ cs.round ≠ round ∨ cs.proposalBlockParts = none
  | .maj23SignAggr none => True
  | .maj23SignAggr (some sa) =>
    sa.height ≠ cs.height ∨ signAggrAccepted env.lib cs.validators sa = false ∨
      sa.type.isVoteTypeValid = false
  | .vote none => False
  | .vote (some v) => ∃ proposer cs', isProposer env cs = .ok proposer cs' ∧
    (proposer = false ∨ v.height ≠ cs'.height ∨ v.round ≠ cs'.round)

/-- `handleMsg` returns from every message that it ignores. -/
theorem handle_ignored {env : Env} {cs : ConsensusState} {key : String} {m : Msg}
    (h : ignores env cs m) : endError (handle env (.msg m key)) cs = none := by
  cases m with
  | proposal p =>
    rw [handle, defaultSetProposal, endError_get_bind]
    cases p with
    | none =>
      obtain ⟨_, hproposal⟩ := Option.ne_none_iff_exists'.1 h
      simp [hproposal]
    | some p => simp [show proposalApplies cs p = false from h]
  | blockPart height round part =>
    rw [handle, addProposalBlockPart, endError_get_bind]
    by_cases happlies : cs.height ≠ height ∨ cs.round ≠ round
    · simp [happlies]
    · rw [if_neg happlies, (or_assoc.2 h).resolve_left happlies]
      rfl
  | maj23SignAggr sa =>
    rw [handle, setMaj23SignAggr, endError_get_bind]
    cases sa with
    | none => rfl
    | some =>
      dsimp only
      rcases h with h | h | h
      · simp [h]
      · simp [h]
      · simp [h]
  | vote v =>
    cases v with
    | none => exact h.elim
    | some =>
      obtain ⟨_, _, hproposer, h⟩ := h
      rw [handle, addVote]
      dsimp only
      rw [endError_bind_of_ok hproposer, endError_get_bind]
      rcases h with rfl | h
      · rfl
      · simp [h]

/-- `handleMsg` logs an error about the message. -/
def rejects (env : Env) (cs : ConsensusState) (peerKey : String) : Msg → Prop
  | .proposal none => False
  | .proposal (some p) =>
    cs.proposal = none ∧ p.height = cs.height ∧ p.round ≤ cs.round ∧
      cs.step.num < RoundStep.commit.num ∧
      (¬ (p.polRound = -1 ∨ 0 ≤ p.polRound ∧ p.polRound < p.round) ∨
        ∃ proposer cs', proposerByRound env p.round cs = .ok proposer cs' ∧
          proposalSigned env cs proposer p = false)
  | .blockPart height round part =>
    cs.height = height ∧ cs.round = round ∧ ∃ ps q ps' added err,
      cs.proposalBlockParts = some ps ∧ part = some q ∧
      ps.addPart env.lib q (peerKey != "") = .ok (ps', added, err) ∧
      (err ≠ none ∨
        added = true ∧ ps'.isComplete = true ∧ env.lib.blockFromBytes ps'.getReader = none)
  | .maj23SignAggr none => True
  | .maj23SignAggr (some sa) =>
    sa.height = cs.height ∧
      (signAggrAccepted env.lib cs.validators sa = false ∨ sa.type.isVoteTypeValid = false ∨
        sa.round = cs.round ∧
          (sa.type = .prevote ∧ cs.prevoteMaj23SignAggr ≠ none ∨
            sa.type = .precommit ∧ cs.precommitMaj23SignAggr ≠ none))
  | .vote none => False
  | .vote (some v) =>
    v.height = cs.height ∧ v.round = cs.round ∧
      (∃ cs', isProposer env cs = .ok true cs') ∧
      VoteSet.hasTwoThirdsMajority
        (cs.votes.getVoteSet cs.round (if v.type = .prevote then .prevote else .precommit)) = false ∧
      ∃ votes added err, cs.votes.addVote env.lib v peerKey = .ok (votes, added, err) ∧ err ≠ none

/-- The message is stored before `handleMsg` can find fault with it: a part that fits, whatever the
block is, an aggregate with a valid signature, even if there is one already, and votes. -/
def storesFirst (env : Env) (cs : ConsensusState) (peerKey : String) : Msg → Prop
  | .blockPart _ _ part => ∃ ps q ps' err, cs.proposalBlockParts = some ps ∧ part = some q ∧
      ps.addPart env.lib q (peerKey != "") = .ok (ps', true, err)
  | .maj23SignAggr (some sa) =>
    signAggrAccepted env.lib cs.validators sa = true ∧ sa.type.isVoteTypeValid = true
  | .vote (some _) => True
  | _ => False

theorem proposerByRound_toRoundState {env : Env} {round : Int} {cs cs' : ConsensusState}
    {proposer : Validator} (h : proposerByRound env round cs = .ok proposer cs') :
    cs'.toRoundState = cs.toRoundState := by
  rw [proposerByRound, get_bind_apply] at h
  split at h
  · rw [fromExcept_bind_eq_ok] at h
    obtain ⟨idx, -, h⟩ := h
    rw [modify_bind_apply] at h
    cases hat : proposerAt idx cs with
    | error => simp [hat, fromExcept] at h
    | ok =>
      simp [hat, fromExcept] at h
      rw [← h.2]
  · split at h
    · cases h
    split at h
    · cases h
    cases hat : proposerAt ((int64 (cs.vrfValIndex + round)).tmod cs.validators.size) cs with
    | error => simp [hat, fromExcept] at h
    | ok =>
      rw [hat] at h
      cases h
      rfl

/-- A message that is rejected before it is stored leaves the round state as it was. -/
theorem rejected_unchanged {env : Env} {cs : ConsensusState} {key : String} {m : Msg}
    (hrejects : rejects env cs key m) (hfirst : ¬ storesFirst env cs key m) :
    (endState (handle env (.msg m key)) cs).toRoundState = cs.toRoundState := by
  cases m with
  | proposal p =>
    cases p with
    | none => exact hrejects.elim
    | some p =>
      obtain ⟨-, -, -, -, hfault⟩ := hrejects
      rw [handle, defaultSetProposal, endState_get_bind]
      cases happlies : proposalApplies cs p with
      | false => simp [happlies]
      | true =>
        have hpol : p.polRound = -1 ∨ 0 ≤ p.polRound ∧ p.polRound < p.round := by
          simp only [proposalApplies, Bool.and_eq_true, Bool.or_eq_true, beq_iff_eq,
            decide_eq_true_eq] at happlies
          exact happlies.2
        obtain ⟨_, _, hproposer, hsigned⟩ := hfault.resolve_left (not_not.2 hpol)
        simp only [happlies, Bool.not_true, Bool.false_eq_true, if_false, endState_bind, hproposer]
        simp [hsigned, proposerByRound_toRoundState hproposer]
  | blockPart =>
    obtain ⟨hheight, hround, ps, q, ps', added, err, hparts, rfl, hadd, -⟩ := hrejects
    have hadded : added = false := by
      by_contra h
      rw [Bool.not_eq_false] at h
      exact hfirst ⟨ps, q, ps', err, hparts, rfl, h ▸ hadd⟩
    rw [handle, addProposalBlockPart, endState_get_bind, if_neg (by simp [hheight, hround])]
    simp [hparts, endState_fromExcept_bind, hadd, hadded]
  | maj23SignAggr sa =>
    cases sa with
    | none => rfl
    | some sa =>
      rw [handle, setMaj23SignAggr, endState_get_bind]
      cases haccepted : signAggrAccepted env.lib cs.validators sa with
      | false => simp [hrejects.1, haccepted]
      | true =>
        have hvalid : sa.type.isVoteTypeValid = false := by
          by_contra h
          rw [Bool.not_eq_false] at h
          exact hfirst ⟨haccepted, h⟩
        simp [hrejects.1, haccepted, hvalid]
  | vote v =>
    cases v with
    | none => exact hrejects.elim
    | some => exact absurd trivial hfirst

namespace ConsensusReactor

variable {β : Type}

/-- Some bytes do no harm: `Receive` and `handleMsg` return, and a message that is rejected leaves
the round state as it was. -/
def SafeFrom (env : Env) (conR : ConsensusReactor β) (chID : Nat) (src : Peer β)
    (msgBytes : Bytes) : Prop :=
  ∃ state passed, conR.receive chID src msgBytes = .ok (state, passed) ∧ ∀ m, passed = some m →
    endError (handle env (.msg m src.key)) conR.conS = none ∧
    (rejects env conR.conS src.key m →
      (endState (handle env (.msg m src.key)) conR.conS).toRoundState = conR.conS.toRoundState)

/-- **Bytes that do no harm**: `Receive` survives them, and what it passes on is ignored. -/
theorem safeFrom_of_ignores {env : Env} {conR : ConsensusReactor β} {chID : Nat} {src : Peer β}
    {msgBytes : Bytes} (hreturns : Returns (conR.receive chID src msgBytes))
    (hpassed : ∀ state m, conR.receive chID src msgBytes = .ok (state, some m) →
      ignores env conR.conS m ∧
        (rejects env conR.conS src.key m → ¬ storesFirst env conR.conS src.key m)) :
    conR.SafeFrom env chID src msgBytes := by
  obtain ⟨⟨state, passed⟩, hreceive⟩ := hreturns
  refine ⟨state, passed, hreceive, ?_⟩
  rintro m rfl
  obtain ⟨hignores, hfirst⟩ := hpassed state m hreceive
  exact ⟨handle_ignored hignores, fun hrejects ↦ rejected_unchanged hrejects (hfirst hrejects)⟩

/-- **Who is safe from peers.**  Nobody who listens: a reactor is safe from all bytes on all
channels exactly if it is not running.  Which bytes `Receive` itself survives is known for each
message.  Among what it passes on there is, in every state, something that `handleMsg` does not
survive, and a rejected message can only have changed the round state if it was stored first. -/
theorem safe_iff (env : Env) (conR : ConsensusReactor β) :
    ((∀ chID src msgBytes, conR.SafeFrom env chID src msgBytes) ↔ conR.running = false) ∧
    (∀ chID src msgBytes, Returns (conR.receive chID src msgBytes) ↔
      (conR.running = true → msgBytes ≠ [] ∧ ∀ msg, conR.readMessage msgBytes = some msg →
        ∃ ps, conR.peerState src = .ok ps ∧ conR.Survives chID ps msg)) ∧
    (∀ cs key, endError (handle env (.msg (.vote none) key)) cs ≠ none ∧
      ∀ p, proposalApplies cs p = true → p.round < 0 →
        (cs.vrfValIndex < 0 ∨ cs.validators.size = 0 ∨
          (int64 (cs.vrfValIndex + p.round)).tmod cs.validators.size < 0) →
        endError (handle env (.msg (.proposal (some p)) key)) cs ≠ none) ∧
    ∀ cs key m, rejects env cs key m → ¬ storesFirst env cs key m →
      (endState (handle env (.msg m key)) cs).toRoundState = cs.toRoundState := by
  refine ⟨⟨fun hsafe ↦ ?_, fun hstopped chID src msgBytes ↦ ?_⟩, fun _ _ _ ↦ receive_returns_iff,
    fun cs key ↦ ⟨by simp [handle_nil_vote], fun p ↦ handle_negative_round env key cs p⟩,
    fun cs key m ↦ rejected_unchanged⟩
  · by_contra hrun
    rw [Bool.not_eq_false] at hrun
    obtain ⟨state, _, hreceive, -⟩ := hsafe 0 ⟨"", none⟩ []
    exact (receive_returns_iff.1 ⟨_, hreceive⟩ hrun).1 rfl
  · refine ⟨src.state, none, ?_, nofun⟩
    rw [receive, hstopped]
    rfl

end ConsensusReactor

namespace SmallNet

/-- A proposal of the round -1 that nobody has signed. -/
def unsigned : Proposal :=
  { height := 5, round := -1, hash := [], blockPartsHeader := ⟨1, []⟩, polRound := -1
    polBlockID := .zero, proposerPeerKey := "N", signature := [] }

/-- A node that listens.  Its bit arrays do nothing, and it knows three messages. -/
def reactor : ConsensusReactor Unit where
  running := true
  arrays := ⟨fun _ => .ok (some ()), fun b _ => .ok b⟩
  readMessage bz :=
    match bz with
    | [1] => some (some (.hasVote 5 0 (.other 0) 0))
    | [2] => some (some (.passed (.vote none)))
    | [3] => some (some (.passed (.proposal (some unsigned))))
    | _ => none
  peerStates := []
  conS := node [2]

/-- A peer that has said it is at height 5. -/
def peer : Peer Unit := ⟨"P", some (PeerRoundState.new.applyNewRoundStepMessage 5 0 1)⟩

end SmallNet

open SmallNet in
/-- **Four ways to stop a node.**  No bytes at all, a type of vote that does not exist, a nil vote,
and a proposal of a negative round, which reaches `handleMsg` although it is not signed. -/
theorem ConsensusReactor.safe_fails :
    (reactor.receive stateChannel peer []).toOption.isNone ∧
    (reactor.receive stateChannel peer [1]).toOption.isNone ∧
    (reactor.receive voteChannel peer [2]).toOption.isNone ∧
    ∃ ps, reactor.receive dataChannel peer [3] = .ok (some ps, some (.proposal (some unsigned))) ∧
      endError (handle (env 0) (.msg (.proposal (some unsigned)) peer.key)) reactor.conS =
        some (.panicConsensus "cs.vrfValIndex should not be -1") :=
  ⟨rfl, rfl, rfl, _, rfl, by decide +kernel⟩

end NeatPoS
