import NeatPoS.Consensus.Aggregate
import NeatPoS.Consensus.DoubleSign
import NeatPoS.Lib.VoteHistory

/-!
# Networks of honest nodes

All nodes run the state machine, and nobody else speaks.  A message may be delivered to any node at
any time after some node has sent it, any number of times, or never; timeouts fire in any order.
That is `NetReachable`, in which one node after the other handles an input.

The nodes share one thing that the state machine leaves to its surroundings: at each height, they
agree on the validators (`valsAt`).  The powers are not negative, so that two majorities have a
validator in common.

The second part reads a list of votes as a history in the sense of `NeatPoS.Lib.VoteHistory`.  An
aggregate whose bits stand for votes of the history is, once it has been accepted, a quorum there.
-/

set_option autoImplicit false

namespace NeatPoS

open Stateful Relation Quorum VoteHistory

variable {ι : Type} {sa : SignAggr} {votes : List Vote}

/-- The event is the sending of the message.  A relay may put a part of a block into a message for
another round. -/
def Event.delivers : Event → Input → Bool
  | .internal (.proposal (some p)), .msg (.proposal (some p')) _ => p == p'
  | .internal (.blockPart _ _ (some part)), .msg (.blockPart _ _ (some part')) _ => part == part'
  | .signAggr sa, .msg (.maj23SignAggr (some sa')) _ => sa == sa'
  | .signed _ v, .msg (.vote (some v')) _ => v == v'
  | _, _ => false

/-- The input is a message. -/
def Input.isMsg : Input → Bool
  | .msg _ _ => true
  | _ => false

/-- The input can occur in the network: if it is a message, a node has sent it. -/
def Delivered (nodes : ι → ConsensusState) (input : Input) : Prop :=
  input.isMsg = true → ∃ i, ∃ e ∈ (nodes i).trace, e.delivers input = true

theorem Event.eq_of_delivers_vote {e : Event} {v : Vote} {key : String}
    (h : e.delivers (.msg (.vote (some v)) key) = true) : ∃ rs, e = .signed rs v := by
  cases e with
  | signed rs => exact ⟨rs, by rw [of_decide_eq_true h]⟩
  | _ => exact absurd h (by simp [Event.delivers])

theorem Event.eq_of_delivers_aggr {e : Event} {key : String}
    (h : e.delivers (.msg (.maj23SignAggr (some sa)) key) = true) : e = .signAggr sa := by
  cases e with
  | signAggr => rw [of_decide_eq_true h]
  | _ => exact absurd h (by simp [Event.delivers])

/-- The node's surroundings name the validators that everybody else's name. -/
def SameValidators (valsAt : Nat → ValidatorSet) (env : Env) (cs : ConsensusState) : Prop :=
  ∀ validators, getValidators env.currentEpoch.1 (lastExtra env cs) = some validators →
    validators = valsAt ((lastExtra env cs).height + 1)

/-- The states of the networks whose steps satisfy `P`. -/
inductive NetReachable [DecidableEq ι] (lib : Neatlib) (valsAt : Nat → ValidatorSet)
    (P : Env → Input → ConsensusState → Prop) : (ι → ConsensusState) → Prop
  | started {nodes : ι → ConsensusState} (hstarted : ∀ i, Started lib (nodes i))
      (hvals : ∀ i, (nodes i).validators = valsAt (nodes i).height)
      (hkeys : ∀ i j, (nodes i).privAddress = (nodes j).privAddress → i = j) :
      NetReachable lib valsAt P nodes
  | step {nodes : ι → ConsensusState} (i : ι) {env : Env} {input : Input}
      (h : NetReachable lib valsAt P nodes) (hlib : env.lib = lib)
      (hadm : input.admissible env (nodes i) = true) (hvals : SameValidators valsAt env (nodes i))
      (hdel : Delivered nodes input) (hP : P env input (nodes i)) :
      NetReachable lib valsAt P (Function.update nodes i (step env input (nodes i)))

/-! ## Votes as a history -/

/-- The kind of a vote. -/
def VoteType.kind : VoteType → Kind
  | .prevote => .prevote
  | _ => .precommit

/-- What a vote is for: the hash of a block, or nothing. -/
def BlockID.value (b : BlockID) : Option Bytes := if b.hash = [] then none else some b.hash

/-- A vote, as far as agreement is concerned. -/
def Vote.cast (v : Vote) : Cast Nat Bytes Int :=
  ⟨v.validatorIndex, v.type.kind, v.round, v.blockID.value⟩

/-- The votes of one height. -/
def castsAt (height : Nat) (votes : List Vote) : List (Cast Nat Bytes Int) :=
  (votes.filter fun v => v.height == height).map Vote.cast

theorem BlockID.value_eq_some {b : BlockID} {h : Bytes} :
    b.value = some h ↔ b.hash = h ∧ h ≠ [] := by
  rw [BlockID.value]
  split
  · rename_i hnil
    simp only [reduceCtorEq, false_iff, not_and, not_not]
    exact fun h ↦ h.symm.trans hnil
  · rename_i hne
    simp only [Option.some.injEq]
    exact ⟨fun h ↦ ⟨h, h ▸ hne⟩, fun h ↦ h.1⟩

theorem mem_castsAt {height : Nat} {c : Cast Nat Bytes Int} :
    c ∈ castsAt height votes ↔ ∃ v ∈ votes, v.height = height ∧ v.cast = c := by
  simp only [castsAt, List.mem_map, List.mem_filter, beq_iff_eq]
  constructor
  · rintro ⟨v, ⟨hv, hh⟩, hc⟩
    exact ⟨v, hv, hh, hc⟩
  · rintro ⟨v, hv, hh, hc⟩
    exact ⟨v, ⟨hv, hh⟩, hc⟩

theorem castsAt_cons (height : Nat) (v : Vote) (votes : List Vote) :
    castsAt height (v :: votes) =
      if v.height = height then v.cast :: castsAt height votes else castsAt height votes := by
  rw [castsAt, castsAt, List.filter_cons]
  by_cases hh : v.height = height
  · rw [if_pos hh, if_pos (by simp [hh]), List.map_cons]
  · rw [if_neg hh, if_neg (by simp [hh])]

/-- The system of majorities of a validator set. -/
abbrev ValidatorSet.majorities (vs : ValidatorSet) (h : ∀ w ∈ vs.powers, 0 ≤ w) : System Nat :=
  System.majority vs.powers h

/-- Further votes do not undo a quorum. -/
theorem hasQuorum_mono {vs : ValidatorSet} {hn : ∀ w ∈ vs.powers, 0 ≤ w} {height : Nat}
    {votes votes' : List Vote} (hsub : ∀ v ∈ votes, v ∈ votes') {k : Kind} {r : Int}
    {v : Option Bytes} (h : HasQuorum (vs.majorities hn) (castsAt height votes) k r v) :
    HasQuorum (vs.majorities hn) (castsAt height votes') k r v := by
  refine System.majority_mono (fun i hi ↦ ?_) h
  obtain ⟨w, hw, hh, hc⟩ := mem_castsAt.1 hi
  exact mem_castsAt.2 ⟨w, hsub w hw, hh, hc⟩

/-- The bits of the aggregate stand for votes that have been signed. -/
structure BitsSigned (votes : List Vote) (sa : SignAggr) : Prop where
  round_nonneg : 0 ≤ sa.round
  bits : ∀ bits, sa.bitArray = some bits → ∀ i : Nat, bits[i]? = some true →
    ∃ v ∈ votes, v.validatorIndex = i ∧ v.height = sa.height ∧ v.round = sa.round ∧
      v.type = sa.type ∧ v.blockID = sa.maj23

theorem BitsSigned.mono {votes votes' : List Vote} (h : BitsSigned votes sa)
    (hsub : ∀ v ∈ votes, v ∈ votes') : BitsSigned votes' sa := by
  refine ⟨h.round_nonneg, fun bits hbits i hi ↦ ?_⟩
  obtain ⟨v, hv, hrest⟩ := h.bits bits hbits i hi
  exact ⟨v, hsub v hv, hrest⟩

theorem exists_of_signBitArray {n : Nat} {l : List Vote} {i : Nat}
    (h : (signBitArray n l)[i]? = some true) : ∃ v ∈ l, v.validatorIndex = i := by
  have hfold : ∀ (l : List Vote) (bits : BitArray),
      (l.foldl (fun bits v => bits.set v.validatorIndex true) bits)[i]? = some true →
      bits[i]? = some true ∨ ∃ v ∈ l, v.validatorIndex = i := by
    intro l
    induction l with
    | nil => exact fun bits h ↦ .inl h
    | cons v _ ih =>
      intro bits h
      rcases ih (bits.set v.validatorIndex true) h with h | ⟨v', hv', hi⟩
      · by_cases hi : v.validatorIndex = i
        · exact .inr ⟨v, List.mem_cons_self, hi⟩
        · rw [List.getElem?_set_ne hi] at h
          exact .inl h
      · exact .inr ⟨v', List.mem_cons_of_mem v hv', hi⟩
  rcases hfold l _ h with h | h
  · rw [List.getElem?_replicate] at h
    split at h <;> simp at h
  · exact h

/-- **An aggregate stands for the votes it was made from.** -/
theorem bitsSigned_makeSignAggr {hvs : HeightVoteSet}
    (h : hvs.AllVotes (· ∈ votes)) {r : Int} (hr : 0 ≤ r) {t : VoteType} {vs : VoteSet}
    (hvs' : hvs.getVoteSet r t = some vs) (b : BlockID) (chainID : String) (n : Nat)
    (signature : Bytes) :
    BitsSigned votes (SignAggr.makeSignAggr hvs.height r t b chainID
      (signBitArray n (majorityVotes vs b)) signature) := by
  refine ⟨hr, fun bits hbits i hi ↦ ?_⟩
  rw [← Option.some.inj hbits] at hi
  obtain ⟨v, hv, hindex⟩ := exists_of_signBitArray hi
  simp only [majorityVotes, List.mem_filterMap, Option.filter_eq_some_iff, beq_iff_eq] at hv
  obtain ⟨_, ho, rfl, hb⟩ := hv
  obtain ⟨hmem, hheight, hround, htype⟩ := (h r t vs hvs').2 v (.inl ho)
  exact ⟨v, hmem, hindex, hheight, hround, htype, hb⟩

/-- **An accepted aggregate is a quorum.** -/
theorem BitsSigned.hasQuorum {lib : Neatlib} {vs : ValidatorSet} {hn : ∀ w ∈ vs.powers, 0 ≤ w}
    (h : BitsSigned votes sa) (hacc : signAggrAccepted lib vs sa = true) :
    HasQuorum (vs.majorities hn) (castsAt sa.height votes) sa.type.kind sa.round
      sa.maj23.value := by
  obtain ⟨bits, -, hbits, -, -, -, hweight⟩ := signAggrAccepted_checks hacc
  have hround := h.round_nonneg
  have htotal : vs.powers.sum < 2 * loose23MajorThreshold vs.powers.sum sa.round :=
    total_lt_two_mul_threshold (List.sum_nonneg hn) (by omega)
  refine ⟨bits, by omega, fun i hi ↦ ?_⟩
  obtain ⟨v, hv, hindex, hheight, hr, htype, hblock⟩ := h.bits bits hbits i hi
  refine mem_castsAt.2 ⟨v, hv, hheight, ?_⟩
  rw [Vote.cast, hindex, htype, hr, hblock]

/-! ## A concrete network -/

namespace SmallNet

/-- The nodes `[1]`, `[2]` and `[3]`. -/
inductive Member where
  | one
  | two
  | three
deriving DecidableEq

/-- The address of a node. -/
def Member.address : Member → Bytes
  | .one => [1]
  | .two => [2]
  | .three => [3]

/-- The states of the three. -/
structure Trio where
  one : ConsensusState
  two : ConsensusState
  three : ConsensusState

namespace Trio

def get (t : Trio) : Member → ConsensusState
  | .one => t.one
  | .two => t.two
  | .three => t.three

def set (t : Trio) (i : Member) (cs : ConsensusState) : Trio :=
  match i with
  | .one => { t with one := cs }
  | .two => { t with two := cs }
  | .three => { t with three := cs }

theorem get_set (t : Trio) (i : Member) (cs : ConsensusState) :
    (t.set i cs).get = Function.update t.get i cs := by
  funext j
  cases i <;> cases j <;> rfl

/-- At the start of height 5. -/
def start : Trio := ⟨node [1], node [2], node [3]⟩

/-- Some node has sent the input. -/
def delivers (t : Trio) (input : Input) : Bool :=
  t.one.trace.any (·.delivers input) || t.two.trace.any (·.delivers input) ||
    t.three.trace.any (·.delivers input)

theorem exists_of_delivers {t : Trio} {input : Input} (h : t.delivers input = true) :
    ∃ i, ∃ e ∈ (t.get i).trace, e.delivers input = true := by
  simp only [delivers, Bool.or_eq_true, List.any_eq_true] at h
  rcases h with (h | h) | h
  · exact ⟨.one, h⟩
  · exact ⟨.two, h⟩
  · exact ⟨.three, h⟩

/-- One input after the other, each for a node and at a time. -/
def run (t : Trio) (inputs : List (Member × Int × Input)) : Trio :=
  inputs.foldl (fun t x => t.set x.1 (step (env x.2.1) x.2.2 (t.get x.1))) t

/-- The inputs can occur in the network, and each step satisfies `p`. -/
def allowed (p : Env → Input → ConsensusState → Bool) :
    Trio → List (Member × Int × Input) → Bool
  | _, [] => true
  | t, (i, now, input) :: rest =>
    input.admissible (env now) (t.get i) && (!input.isMsg || t.delivers input) &&
      p (env now) input (t.get i) && allowed p (t.set i (step (env now) input (t.get i))) rest

theorem netReachable_start (P : Env → Input → ConsensusState → Prop) :
    NetReachable lib (fun _ => validators) P start.get := by
  refine .started (fun i ↦ ?_) (fun i ↦ ?_) fun i j hij ↦ ?_
  · cases i <;> exact started_node _
  · cases i <;> rfl
  · have hkey : ∀ i, (start.get i).privAddress = i.address := fun i ↦ by cases i <;> rfl
    rw [hkey, hkey] at hij
    revert hij
    cases i <;> cases j <;> decide

theorem netReachable_run {P : Env → Input → ConsensusState → Prop}
    {p : Env → Input → ConsensusState → Bool} (hp : ∀ env input cs, p env input cs → P env input cs)
    (inputs : List (Member × Int × Input)) {t : Trio}
    (ht : NetReachable lib (fun _ => validators) P t.get) (h : allowed p t inputs = true) :
    NetReachable lib (fun _ => validators) P (t.run inputs).get := by
  induction inputs generalizing t with
  | nil => exact ht
  | cons x _ ih =>
    obtain ⟨i, _, input⟩ := x
    simp only [allowed, Bool.and_eq_true, Bool.or_eq_true] at h
    obtain ⟨⟨⟨hadm, hdel⟩, hP⟩, hrest⟩ := h
    refine ih ?_ hrest
    rw [get_set]
    refine .step i ht rfl hadm (fun validators hv ↦ (Option.some.inj hv).symm) (fun hmsg ↦ ?_)
      (hp _ _ _ hP)
    rw [hmsg] at hdel
    exact exists_of_delivers (hdel.resolve_left (by simp))

end Trio

/-- The inputs of one node at one time. -/
def Member.at (i : Member) (now : Int) (inputs : List (Int × Input)) :
    List (Member × Int × Input) :=
  inputs.map fun x => (i, now, x.2)

/-- The arrival of a vote of the validator `[3]`. -/
def vote (r : Int) (type : VoteType) (b : BlockID) : Int × Input :=
  (0, .msg (.vote (some
    { validatorAddress := [3], validatorIndex := 2, height := 5, round := r, type, blockID := b
      signature := 3 :: lib.voteSignBytes ⟨"neatio", b, 5, r, type⟩ })) "N")

end SmallNet

end NeatPoS
