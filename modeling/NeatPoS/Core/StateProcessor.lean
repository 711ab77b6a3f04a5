import NeatPoS.Core.ChainContract
import NeatPoS.Core.StateDB
import NeatPoS.Lib.Stateful

/-!
# Transactions

`ApplyTransactionEx` (`core/state_processor1.go`) with what it is made of: the calls of the chain's
own contract, the gas pool, and `TransitionDbEx` (`core/state_transition1.go`) for all other
transactions.

A transaction that fails does not undo what it has done so far: whoever called `ApplyTransactionEx`
finds the gas pool, the pending operations and the state as they were left.  The programs are
therefore in `EStateM`, where a failure keeps the state.

The state database is a parameter (`StateAccess`), and so are the virtual machine, the signatures
and the ABI.  The rules of Homestead, EIP 158 and Byzantium hold from the first block on.
-/

set_option autoImplicit false

namespace NeatPoS

/-! ## Failures -/

/-- The errors that `ApplyTransactionEx` returns. -/
inductive ApplyError where
  | invalidSender
  | unknownFunction
  | notAllowedInMainChain
  | notAllowedInSideChain
  | nonceTooHigh
  | nonceTooLow
  | insufficientForGas
  | gasLimitReached
  | outOfGas
  | insufficientForAmount
  /-- The error of a callback, whichever it is. -/
  | callback
deriving DecidableEq, Repr

/-- How a transaction fails. -/
inductive TxFailure where
  | error (e : ApplyError)
  | panic (p : Panic)
deriving DecidableEq, Repr

/-! ## What a transaction works on -/

/-- The methods of the state database that transactions call. -/
structure StateAccess (σ : Type) where
  exist : σ → Address → Bool
  createAccount : Address → σ → σ
  getNonce : σ → Address → Nat
  setNonce : Address → Nat → σ → σ
  getBalance : σ → Address → Int
  addBalance : Address → Int → σ → σ
  subBalance : Address → Int → σ → σ
  getRefund : σ → Nat
  /-- `Finalise(true)` -/
  finalise : σ → Except Panic σ

/-- What the transactions of a block share.  `σ` is the state database, and `ω` the pending
operations. -/
structure Work (σ ω : Type) where
  db : σ
  ops : List ω
  /-- The gas that is left of the limit of the block. -/
  gasPool : Nat
  usedGas : Nat
  totalUsedMoney : Int

/-- A callback, and the type it has been registered with. -/
structure ApplyCb (σ ω : Type) where
  crossChain : Bool
  run : Transaction → EStateM TxFailure (σ × List ω) Unit

/-- What the virtual machine returns: the gas that is left, and whether it failed for lack of
balance (`some true`), otherwise (`some false`) or not at all. -/
structure EvmResult (σ : Type) where
  db : σ
  gas : Nat
  vmerr : Option Bool

/-- What `ApplyTransactionEx` takes from outside. -/
structure TxEnv (σ ω : Type) where
  access : StateAccess σ
  /-- `tx.AsMessage` -/
  sender : Transaction → Option Address
  isMainChain : Bool
  /-- `FunctionTypeFromId`, on four bytes. -/
  functionTypeFromId : Bytes → Option FunctionType
  getApplyCb : FunctionType → Option (ApplyCb σ ω)
  /-- `evm.Create`, given the sender and the gas. -/
  create : Transaction → Address → Nat → σ → EvmResult σ
  /-- `evm.Call`. -/
  call : Transaction → Address → Nat → σ → EvmResult σ

namespace StateProcessor

/-- Programs over the shared work. -/
abbrev TxM (σ ω : Type) := EStateM TxFailure (Work σ ω)

section

variable {σ ω : Type}

/-- Returns an error if the condition holds. -/
def failIf (c : Bool) (e : ApplyError) : TxM σ ω Unit := if c then throw (.error e) else pure ()

/-- Changes the state database. -/
def onDb (f : σ → σ) : TxM σ ω Unit := modify fun w => { w with db := f w.db }

/-- A function of the state database that may panic. -/
def onDbPanic (f : σ → Except Panic σ) : TxM σ ω Unit := do
  match f (← get).db with
  | .ok db => modify fun w => { w with db }
  | .error p => throw (.panic p)

/-- `SubGas`. -/
def subGas (amount : Nat) : TxM σ ω Unit := do
  failIf (decide ((← get).gasPool < amount)) .gasLimitReached
  modify fun w => { w with gasPool := w.gasPool - amount }

/-- `AddGas`. -/
def addGas (amount : Nat) : TxM σ ω Unit := do
  if 2 ^ 64 - 1 - amount < (← get).gasPool then
    throw (.panic (.explicit "gas pool pushed above uint64"))
  modify fun w => { w with gasPool := w.gasPool + amount }

/-- The gas and the money of a transaction are counted. -/
def countUsed (gas : Nat) (money : Int) : TxM σ ω Unit :=
  modify fun w =>
    { w with usedGas := (w.usedGas + gas) % 2 ^ 64, totalUsedMoney := w.totalUsedMoney + money }

/-- Runs a callback. -/
def runCb (cb : ApplyCb σ ω) (tx : Transaction) : TxM σ ω Unit := fun w =>
  match cb.run tx (w.db, w.ops) with
  | .ok _ (db, ops) => .ok () { w with db, ops }
  | .error e (db, ops) => .error e { w with db, ops }

variable (env : TxEnv σ ω)

/-- The nonce of the transaction is that of the sender. -/
def checkNonce (tx : Transaction) (sender : Address) : TxM σ ω Unit := do
  let nonce := env.access.getNonce (← get).db sender
  failIf (decide (nonce < tx.accountNonce)) .nonceTooHigh
  failIf (decide (tx.accountNonce < nonce)) .nonceTooLow

/-- All the gas of a transaction is bought. -/
def buyGas (tx : Transaction) (sender : Address) : TxM σ ω Unit := do
  let gasValue : Int := tx.gasLimit * tx.price
  failIf (decide (env.access.getBalance (← get).db sender < gasValue)) .insufficientForGas
  subGas tx.gasLimit
  onDb (env.access.subBalance sender gasValue)

/-! ## Calls of the chain's own contract -/

/-- The function that a transaction calls, if it may be called on this chain. -/
def functionOf (tx : Transaction) : TxM σ ω FunctionType := do
  match selector tx.payload with
  | .error p => throw (.panic p)
  | .ok id =>
    match env.functionTypeFromId id with
    | none => throw (.error .unknownFunction)
    | some function =>
      failIf (env.isMainChain && !function.allowInMainChain) .notAllowedInMainChain
      failIf (!env.isMainChain && !function.allowInSideChain) .notAllowedInSideChain
      return function

/-- The callback of a function, if one is registered.  A callback of the wrong type is a panic. -/
def callback (function : FunctionType) (tx : Transaction) : TxM σ ω Unit :=
  match env.getApplyCb function with
  | none => pure ()
  | some cb =>
    if cb.crossChain = function.isCrossChainType then runCb cb tx
    else throw (.panic (.explicit
      "callback func is wrong, this should not happened, please check the code"))

/-- `ApplyTransactionEx`, for a call of the chain's own contract. -/
def applyChainFunction (tx : Transaction) (sender : Address) : TxM σ ω Unit := do
  let function ← functionOf env tx
  checkNonce env tx sender
  buyGas env tx sender
  let gas := function.requiredGas
  failIf (decide (tx.gasLimit < gas)) .outOfGas
  failIf (decide (env.access.getBalance (← get).db sender < tx.amount)) .insufficientForAmount
  callback env function tx
  let remainingGas := tx.gasLimit - gas
  onDb (env.access.addBalance sender (remainingGas * tx.price))
  addGas remainingGas
  countUsed gas (gas * tx.price)
  onDbPanic env.access.finalise
  onDb fun db => env.access.setNonce sender ((env.access.getNonce db sender + 1) % 2 ^ 64) db

/-! ## All other transactions -/

/-- `IntrinsicGas`, whose overflow is an error. -/
def intrinsicGas (data : Bytes) (contractCreation : Bool) : Option Nat :=
  let gas := if contractCreation then 53000 else 21000
  let nz := data.countP (· != 0)
  let z := data.length - nz
  if (2 ^ 64 - 1 - gas) / 68 < nz then none
  else if (2 ^ 64 - 1 - (gas + nz * 68)) / 4 < z then none
  else some (gas + nz * 68 + z * 4)

/-- `from`: the account of the sender is created if there is none. -/
def touchSender (sender : Address) : TxM σ ω Unit :=
  onDb fun db => if env.access.exist db sender then db else env.access.createAccount sender db

/-- The virtual machine runs on the gas that is left. -/
def runEvm (tx : Transaction) (sender : Address) (gas : Nat) : TxM σ ω Nat := do
  let result ← modifyGet fun w =>
    let result := match tx.recipient with
      | none => env.create tx sender gas w.db
      | some _ =>
        let nonce := (env.access.getNonce w.db sender + 1) % 2 ^ 64
        env.call tx sender gas (env.access.setNonce sender nonce w.db)
    (result, { w with db := result.db })
  if result.vmerr = some true then
    throw (.error .insufficientForAmount)
  return result.gas

/-- `TransitionDbEx`. -/
def transitionDbEx (tx : Transaction) (sender : Address) : TxM σ ω Nat := do
  touchSender env sender
  checkNonce env tx sender
  buyGas env tx sender
  match intrinsicGas tx.payload tx.recipient.isNone with
  | none => throw (.error .outOfGas)
  | some gas =>
    failIf (decide (tx.gasLimit < gas)) .outOfGas
    let left ← runEvm env tx sender (tx.gasLimit - gas)
    let refund := min ((tx.gasLimit - left) / 2) (env.access.getRefund (← get).db)
    let left := left + refund
    onDb (env.access.addBalance sender (left * tx.price))
    addGas left
    return tx.gasLimit - left

/-- `ApplyTransactionEx`. -/
def applyTransactionEx (tx : Transaction) : TxM σ ω Unit := do
  match env.sender tx with
  | none => throw (.error .invalidSender)
  | some sender =>
    if isNeatChainContractAddr tx.recipient then applyChainFunction env tx sender
    else
      let gas ← transitionDbEx env tx sender
      onDbPanic env.access.finalise
      countUsed gas (gas * tx.price)

/-! ## What a call that succeeds has done -/

open Stateful

variable {env} {tx : Transaction} {sender : Address} {w w' : Work σ ω}

theorem failIf_eq_ok {c : Bool} {e : ApplyError} :
    (failIf c e : TxM σ ω Unit) w = .ok () w' ↔ c = false ∧ w' = w := by
  cases c with
  | false =>
    constructor
    · rintro ⟨⟩
      exact ⟨rfl, rfl⟩
    · rintro ⟨-, rfl⟩
      rfl
  | true =>
    constructor
    · intro h
      exact absurd (show EStateM.Result.error _ w = .ok () w' from h) (by simp)
    · rintro ⟨h, -⟩
      cases h

theorem onDbPanic_eq_ok {f : σ → Except Panic σ} :
    (onDbPanic f : TxM σ ω Unit) w = .ok () w' ↔ ∃ db, f w.db = .ok db ∧ w' = { w with db } := by
  rw [onDbPanic, get_bind_apply]
  cases f w.db with
  | ok db =>
    constructor
    · rintro ⟨⟩
      exact ⟨db, rfl, rfl⟩
    · rintro ⟨_, ⟨⟩, rfl⟩
      rfl
  | error =>
    constructor
    · intro h
      exact absurd (show EStateM.Result.error _ w = .ok () w' from h) (by simp)
    · rintro ⟨_, h, -⟩
      cases h

/-- A check that passes lets the rest run. -/
theorem failIf_bind_eq_ok {α : Type} {c : Prop} [Decidable c] {e : ApplyError}
    {f : Unit → TxM σ ω α} {a : α} :
    (failIf (decide c) e >>= f) w = .ok a w' ↔ ¬ c ∧ f () w = .ok a w' := by
  rw [bind_eq_ok]
  constructor
  · rintro ⟨_, _, hfail, h⟩
    obtain ⟨hc, rfl⟩ := failIf_eq_ok.1 hfail
    exact ⟨of_decide_eq_false hc, h⟩
  · rintro ⟨hc, h⟩
    exact ⟨(), w, failIf_eq_ok.2 ⟨decide_eq_false hc, rfl⟩, h⟩

theorem subGas_eq_ok {amount : Nat} :
    (subGas amount : TxM σ ω Unit) w = .ok () w' ↔
      amount ≤ w.gasPool ∧ w' = { w with gasPool := w.gasPool - amount } := by
  rw [subGas, get_bind_apply, failIf_bind_eq_ok, Nat.not_lt]
  refine and_congr_right fun _ ↦ ⟨?_, ?_⟩
  · rintro ⟨⟩
    rfl
  · rintro rfl
    rfl

theorem addGas_eq_ok {amount : Nat} (h : (addGas amount : TxM σ ω Unit) w = .ok () w') :
    w' = { w with gasPool := w.gasPool + amount } := by
  rw [addGas, get_bind_apply] at h
  by_cases hover : 2 ^ 64 - 1 - amount < w.gasPool
  · rw [if_pos hover] at h
    exact absurd (show EStateM.Result.error _ w = .ok () w' from h) (by simp)
  · rw [if_neg hover] at h
    cases h
    rfl

theorem checkNonce_eq_ok :
    (checkNonce env tx sender : TxM σ ω Unit) w = .ok () w' ↔
      env.access.getNonce w.db sender = tx.accountNonce ∧ w' = w := by
  rw [checkNonce, get_bind_apply, failIf_bind_eq_ok, failIf_eq_ok, decide_eq_false_iff_not,
    ← and_assoc]
  refine and_congr_left fun _ ↦ ?_
  omega

theorem buyGas_eq_ok :
    (buyGas env tx sender : TxM σ ω Unit) w = .ok () w' ↔
      (tx.gasLimit * tx.price : Int) ≤ env.access.getBalance w.db sender ∧
      tx.gasLimit ≤ w.gasPool ∧
      w' = { w with
        db := env.access.subBalance sender (tx.gasLimit * tx.price) w.db
        gasPool := w.gasPool - tx.gasLimit } := by
  rw [buyGas, get_bind_apply, failIf_bind_eq_ok, Int.not_lt, bind_eq_ok]
  refine and_congr_right fun _ ↦ ⟨?_, ?_⟩
  · rintro ⟨_, _, hgas, hdb⟩
    obtain ⟨hpool, rfl⟩ := subGas_eq_ok.1 hgas
    cases hdb
    exact ⟨hpool, rfl⟩
  · rintro ⟨hpool, rfl⟩
    exact ⟨(), _, subGas_eq_ok.2 ⟨hpool, rfl⟩, rfl⟩

theorem functionOf_eq_ok {function : FunctionType}
    (h : (functionOf env tx : TxM σ ω FunctionType) w = .ok function w') :
    ∃ id, selector tx.payload = .ok id ∧ env.functionTypeFromId id = some function ∧ w' = w := by
  rw [functionOf] at h
  cases hid : selector tx.payload with
  | error =>
    rw [hid] at h
    exact absurd (show EStateM.Result.error _ w = .ok function w' from h) (by simp)
  | ok id =>
    rw [hid] at h
    dsimp only at h
    refine ⟨id, rfl, ?_⟩
    cases hf : env.functionTypeFromId id with
    | none =>
      rw [hf] at h
      exact absurd (show EStateM.Result.error _ w = .ok function w' from h) (by simp)
    | some =>
      rw [hf] at h
      rw [bind_eq_ok] at h
      obtain ⟨_, _, hmain, h⟩ := h
      obtain ⟨-, rfl⟩ := failIf_eq_ok.1 hmain
      rw [bind_eq_ok] at h
      obtain ⟨_, _, hside, h⟩ := h
      obtain ⟨-, rfl⟩ := failIf_eq_ok.1 hside
      cases h
      exact ⟨rfl, rfl⟩

/-- What the callback of a function makes of the state and of the operations. -/
def Called (env : TxEnv σ ω) (function : FunctionType) (tx : Transaction) (before after : σ × List ω) :
    Prop :=
  match env.getApplyCb function with
  | none => after = before
  | some cb => cb.run tx before = .ok () after

theorem callback_eq_ok {function : FunctionType}
    (h : (callback env function tx : TxM σ ω Unit) w = .ok () w') :
    Called env function tx (w.db, w.ops) (w'.db, w'.ops) ∧
      w' = { w with db := w'.db, ops := w'.ops } := by
  rw [callback] at h
  rw [Called]
  cases hcb : env.getApplyCb function with
  | none =>
    rw [hcb] at h
    cases h
    exact ⟨rfl, rfl⟩
  | some cb =>
    rw [hcb] at h
    dsimp only at h ⊢
    by_cases hcross : cb.crossChain = function.isCrossChainType
    · rw [if_pos hcross, runCb] at h
      cases hrun : cb.run tx (w.db, w.ops) with
      | ok =>
        rw [hrun] at h
        cases h
        exact ⟨rfl, rfl⟩
      | error =>
        rw [hrun] at h
        cases h
    · rw [if_neg hcross] at h
      exact absurd (show EStateM.Result.error _ w = .ok () w' from h) (by simp)

/-- **A call that succeeds.** -/
theorem applyChainFunction_ok (h : applyChainFunction env tx sender w = .ok () w') :
    ∃ id function db ops db', selector tx.payload = .ok id ∧
      env.functionTypeFromId id = some function ∧
      env.access.getNonce w.db sender = tx.accountNonce ∧
      (tx.gasLimit * tx.price : Int) ≤ env.access.getBalance w.db sender ∧
      tx.gasLimit ≤ w.gasPool ∧ function.requiredGas ≤ tx.gasLimit ∧
      tx.amount ≤ env.access.getBalance
        (env.access.subBalance sender (tx.gasLimit * tx.price) w.db) sender ∧
      Called env function tx
        (env.access.subBalance sender (tx.gasLimit * tx.price) w.db, w.ops) (db, ops) ∧
      env.access.finalise (env.access.addBalance sender
        ((tx.gasLimit - function.requiredGas : Nat) * tx.price) db) = .ok db' ∧
      w' = ⟨env.access.setNonce sender ((env.access.getNonce db' sender + 1) % 2 ^ 64) db', ops,
        w.gasPool - tx.gasLimit + (tx.gasLimit - function.requiredGas),
        (w.usedGas + function.requiredGas) % 2 ^ 64,
        w.totalUsedMoney + function.requiredGas * tx.price⟩ := by
  rw [applyChainFunction] at h
  rw [bind_eq_ok] at h
  obtain ⟨function, _, hfunction, h⟩ := h
  obtain ⟨id, hid, hf, rfl⟩ := functionOf_eq_ok hfunction
  rw [bind_eq_ok] at h
  obtain ⟨_, _, hcheck, h⟩ := h
  obtain ⟨hnonce, rfl⟩ := checkNonce_eq_ok.1 hcheck
  rw [bind_eq_ok] at h
  obtain ⟨_, _, hbuy, h⟩ := h
  obtain ⟨hbalance, hpool, rfl⟩ := buyGas_eq_ok.1 hbuy
  rw [failIf_bind_eq_ok] at h
  obtain ⟨hlimit, h⟩ := h
  rw [get_bind_apply] at h
  rw [failIf_bind_eq_ok] at h
  obtain ⟨hamount, h⟩ := h
  rw [bind_eq_ok] at h
  obtain ⟨_, t, hcalled, h⟩ := h
  obtain ⟨hafter, ht⟩ := callback_eq_ok hcalled
  rw [onDb, modify_bind_apply] at h
  rw [bind_eq_ok] at h
  obtain ⟨_, _, hgas, h⟩ := h
  obtain rfl := addGas_eq_ok hgas
  rw [countUsed, modify_bind_apply] at h
  rw [bind_eq_ok] at h
  obtain ⟨_, _, hfinalise, h⟩ := h
  obtain ⟨db', hdb', rfl⟩ := onDbPanic_eq_ok.1 hfinalise
  cases h
  refine ⟨id, function, t.db, t.ops, db', hid, hf, hnonce, hbalance, hpool, Nat.not_lt.1 hlimit,
    Int.not_lt.1 hamount, hafter, hdb', ?_⟩
  rw [ht]

end

end StateProcessor

end NeatPoS
