import NeatPoS.Types.Basic

/-!
# The chain's own contract

The functions that a transaction calls by sending its data to a fixed address
(`neatabi/abi/abi.go`), and how their number is read from the data.
-/

set_option autoImplicit false

namespace NeatPoS

/-- `FunctionType`. -/
inductive FunctionType where
  | createSideChain
  | joinSideChain
  | depositInMainChain
  | depositInSideChain
  | withdrawFromSideChain
  | withdrawFromMainChain
  | saveDataToMainChain
  | setBlockReward
  | voteNextEpoch
  | revealVote
  | delegate
  | unDelegate
  | register
  | unRegister
  | editValidator
  | withdrawReward
  | unBanned
  | setCommission
  | unknown
deriving DecidableEq, Repr

namespace FunctionType

/-- `IsCrossChainType`. -/
def isCrossChainType : FunctionType → Bool
  | createSideChain | joinSideChain | depositInMainChain | depositInSideChain
  | withdrawFromSideChain | withdrawFromMainChain | saveDataToMainChain | setBlockReward => true
  | _ => false

/-- `AllowInMainChain`. -/
def allowInMainChain : FunctionType → Bool
  | depositInSideChain | withdrawFromSideChain | setBlockReward | unknown => false
  | _ => true

/-- `AllowInSideChain`. -/
def allowInSideChain : FunctionType → Bool
  | createSideChain | joinSideChain | depositInMainChain | withdrawFromMainChain
  | saveDataToMainChain | unknown => false
  | _ => true

/-- `RequiredGas`. -/
def requiredGas : FunctionType → Nat
  | createSideChain | depositInMainChain | withdrawFromSideChain => 42000
  | depositInSideChain | withdrawFromMainChain | saveDataToMainChain | unknown => 0
  | _ => 21000

end FunctionType

/-- `ChainContractMagicAddr`. -/
def chainContractMagicAddr : Bytes := asciiBytes "NEATFFFFFFFFFFFFFFFFFFFFFFFFFFFF"

/-- `IsNeatChainContractAddr`. -/
def isNeatChainContractAddr (addr : Option Bytes) : Bool := addr == some chainContractMagicAddr

/-- `data[:4]`, which panics if there is less. -/
def selector (data : Bytes) : Except Panic Bytes :=
  if data.length < 4 then .error .indexOutOfRange else .ok (data.take 4)

end NeatPoS
