import NeatPoS.Staking.Callbacks

/-!
# Staking, block by block

The system the callbacks and the epoch switch are parts of: one `StateDB` for each block, the epoch
and the votes for the next one, and the operations that wait for the block to be written.

A block is built in three phases.  Its transactions are applied one by one; then the engine
finalizes it, which is where bans are decided and the epoch may be switched; then it is written,
that is, the state is committed and loaded again, and the pending operations are carried out.
`Chain.step` makes one move, and `Reaches` collects the states that any number of moves lead to.  It
takes a condition on the moves, so that a result about all runs and one about the runs that avoid
something are stated in the same way.

The rewards a block credits and the next epoch, which arrive from elsewhere in the code, are moves
that may be made at any time.
-/

set_option autoImplicit false

namespace NeatPoS

/-- Where in a block the chain is. -/
inductive Phase where
  /-- Transactions are applied. -/
  | applying
  /-- `Finalize` has run; the epoch switch has returned these validators, if it took place. -/
  | finalized (newValidators : Option ValidatorSet)

/-- What the epoch switch has returned. -/
def Phase.newValidators : Phase → Option ValidatorSet
  | .applying => none
  | .finalized newValidators => newValidators

/-- The chain, as far as staking is concerned. -/
structure Chain where
  db : StateDB
  /-- The number of `CurrentBlock`. -/
  height : Nat
  epoch : Epoch
  /-- The vote set of the epoch. -/
  epochVoteSet : Option EpochValidatorVoteSet
  /-- The epoch before, and its vote set. -/
  previousEpoch : Option (Epoch × Option EpochValidatorVoteSet)
  /-- The next epoch, once it is known, and its vote set. -/
  nextEpoch : Option (Epoch × Option EpochValidatorVoteSet)
  /-- The operations of the block. -/
  ops : List UpdateNextEpochOp
  phase : Phase

/-- One move. -/
inductive Action where
  /-- A transaction is applied. -/
  | tx (tx : StakingTx)
  /-- A reward is credited to an address, for what it has delegated to another. -/
  | reward (addr deleAddress : Address) (amount : Nat)
  /-- The next epoch becomes known. -/
  | nextEpoch (epoch : Epoch)
  /-- The engine finalizes the block; the commit is the one seen for the parent. -/
  | finalize (commit : Option Commit)
  /-- The block is written. -/
  | write

/-- Why a move cannot be made. -/
inductive ActionError where
  | tx (e : TxError)
  | panic (p : Panic)
  /-- The move does not belong to the phase. -/
  | phase

namespace EpochValidatorVoteSet

theorem setAmount_nodup (voteSet : EpochValidatorVoteSet) (addr : Address) (amount : Int) :
    ((voteSet.votes.map fun v => if v.address = addr then { v with amount := some amount } else v).map
      (·.address)).Nodup := by
  have haddr : (voteSet.votes.map fun v =>
      if v.address = addr then { v with amount := some amount } else v).map (·.address) =
      voteSet.votes.map (·.address) := by
    rw [List.map_map]
    refine List.map_congr_left fun v _ => ?_
    by_cases hv : v.address = addr <;> simp [hv]
  rw [haddr]
  exact voteSet.nodup

/-- Overwrites the amount of a vote. -/
def setAmount (voteSet : EpochValidatorVoteSet) (addr : Address) (amount : Int) :
    EpochValidatorVoteSet :=
  ⟨voteSet.votes.map fun v => if v.address = addr then { v with amount := some amount } else v,
    voteSet.setAmount_nodup addr amount⟩

/-- `UpdateNextEpoch`: a vote that exists gets the amount, and keeps its key. -/
def updateNextEpoch (voteSet : EpochValidatorVoteSet) (op : UpdateNextEpochOp) :
    EpochValidatorVoteSet :=
  if voteSet.votes.any (·.address == op.source) then voteSet.setAmount op.source op.amount
  else voteSet.storeVote ⟨op.source, some op.pubKey, some op.amount, "neatio"⟩

end EpochValidatorVoteSet

namespace Chain

variable (checkConsensusPubKey : Address → Bytes → Bytes → Bool)

/-- What the callbacks see.  They ask for the epoch of the current block, which is still the
previous one when the first block of an epoch is built. -/
def view (c : Chain) : ChainView :=
  match c.previousEpoch with
  | some (epoch, voteSet) =>
    if c.height < c.epoch.startBlock then ⟨epoch, c.height, voteSet, checkConsensusPubKey⟩
    else ⟨c.epoch, c.height, c.epochVoteSet, checkConsensusPubKey⟩
  | none => ⟨c.epoch, c.height, c.epochVoteSet, checkConsensusPubKey⟩

/-- The operations are carried out, those on the votes first.  There is no next epoch to vote for
before it is known. -/
def applyOps (c : Chain) : Except ActionError Chain :=
  match c.nextEpoch with
  | none => if c.ops.isEmpty then .ok c else .error (.panic .nilDereference)
  | some (epoch, voteSet) =>
    let voteSet := if c.ops.isEmpty then voteSet
      else some (c.ops.foldl EpochValidatorVoteSet.updateNextEpoch (voteSet.getD .new))
    .ok { c with nextEpoch := some (epoch, voteSet), ops := [] }

/-- `EnterNewEpoch`, if the epoch is switched. -/
def switchEpoch (c : Chain) (newValidators : Option ValidatorSet) : Chain :=
  match newValidators, c.nextEpoch with
  | some validators, some (epoch, voteSet) =>
    { c with
      epoch := { epoch with validators }
      epochVoteSet := voteSet
      previousEpoch := some (c.epoch, c.epochVoteSet)
      nextEpoch := none }
  | _, _ => c

/-- One move. -/
def step (rt : Runtime) (c : Chain) : Action → Except ActionError Chain
  | .tx tx =>
    match c.phase with
    | .finalized _ => .error .phase
    | .applying =>
      match applyTransactionEx rt (c.view checkConsensusPubKey) tx c.db with
      | .error e => .error (.tx e)
      | .ok (db, ops) => .ok { c with db, ops := c.ops ++ ops }
  | .reward addr deleAddress amount =>
    match c.phase with
    | .finalized _ => .error .phase
    | .applying =>
      .ok { c with db := c.db.addRewardBalanceByDelegateAddress addr deleAddress amount }
  | .nextEpoch epoch =>
    if c.nextEpoch.isNone then .ok { c with nextEpoch := some (epoch, none) } else .ok c
  | .finalize commit =>
    match c.phase with
    | .finalized _ => .error .phase
    | .applying =>
      match updateBannedState c.epoch (c.height + 1) commit c.db with
      | .error p => .error (.panic p)
      | .ok db =>
        match shouldEnterNewEpoch rt c.epoch (c.nextEpoch.map (·.2)) (c.height + 1) db with
        | (db, .enter newValidators) =>
          .ok { c with db, phase := .finalized (some newValidators) }
        | (db, _) => .ok { c with db, phase := .finalized none }
  | .write =>
    match c.phase with
    | .applying => .error .phase
    | .finalized newValidators =>
      match c.db.commit with
      | .error p => .error (.panic p)
      | .ok db => do
        let c ← applyOps { c with db, height := c.height + 1, phase := .applying }
        return c.switchEpoch newValidators

/-- The states that moves lead to, all of which meet a condition. -/
inductive Reaches (ok : Chain → Action → Prop) (c₀ : Chain) : Chain → Prop
  | start : Reaches ok c₀ c₀
  | move {c c' : Chain} (rt : Runtime) (a : Action) (h : Reaches ok c₀ c) (hok : ok c a)
      (hstep : c.step checkConsensusPubKey rt a = .ok c') : Reaches ok c₀ c'

end Chain

end NeatPoS
