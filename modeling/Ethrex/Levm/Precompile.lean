/-
# `Ethrex.Levm.Precompile` — the gas of a call to a precompile

A transaction's initial frame is charged its intrinsic gas before anything
runs (`VM::add_intrinsic_gas`).  When the frame's code address is a
precompile, `VM::execute` hands the frame to `execute_precompile`, whose
precompiles charge their cost through `increase_precompile_consumed_gas`.
That function compares the cost with the frame's gas limit alone, not with
what the frame has left, and adds it to the gas already used: a call whose
cost fits in the limit but not in the remainder leaves the frame with more
gas used than its limit (`increasePrecompileConsumedGas_eq_ok`).  After it,
`VM::post_execution_changes` subtracts the gas used from the limit with
`checked_sub` and reports `InternalError::UndefinedState(0)`
(`sha2_256_call_passes_limit`).

The SHA2-256 precompile stands for the others: each computes its cost and
charges it the same way.  The hash itself is a parameter.  What
`post_execution_changes` does with the amounts (the refund to the sender,
the coinbase fee) is not modelled; its gas arithmetic is
(`postExecutionGas`).
-/
import Ethrex.Vm.ExecuteBlock

namespace Ethrex.Levm

open Ethrex.Rlp (Bytes Address H256)
open Checked

/-! ## Intrinsic gas -/

/-- `TX_BASE_COST`. -/
def txBaseCost : Nat := 21000
/-- `CREATE_BASE_COST`. -/
def createBaseCost : Nat := 32000
/-- `CALLDATA_COST_ZERO_BYTE`. -/
def calldataCostZeroByte : Nat := 4
/-- `CALLDATA_COST_NON_ZERO_BYTE`. -/
def calldataCostNonZeroByte : Nat := 16
/-- `ACCESS_LIST_ADDRESS_COST`. -/
def accessListAddressCost : Nat := 2400
/-- `ACCESS_LIST_STORAGE_KEY_COST`. -/
def accessListStorageKeyCost : Nat := 1900

/-- What one calldata byte costs. -/
def calldataByteCost (byte : UInt8) : Nat :=
  if byte ≠ 0 then calldataCostNonZeroByte else calldataCostZeroByte

/-- `gas_cost::tx_calldata`. -/
def GasCost.txCalldata (calldata : Bytes) : Except OutOfGasError Nat :=
  calldata.foldlM (fun calldataCost byte =>
    (add 64 calldataCost (calldataByteCost byte)).okOr .gasUsedOverflow) 0

/-- `VM::add_intrinsic_gas`: calldata, base, creation and access-list costs,
each sum checked, charged to the frame; a frame that cannot pay is
`IntrinsicGasTooLow`. -/
def addIntrinsicGas (isCreate : Bool) (calldata : Bytes) (accessList : List (Address × List H256))
    (initialCallFrame : CallFrame) : Except VMError CallFrame := do
  let calldataCost ← (GasCost.txCalldata calldata).mapError .outOfGas
  let intrinsicGas ← (add 64 0 calldataCost).okOr (.outOfGas .consumedGasOverflow)
  let intrinsicGas ← (add 64 intrinsicGas txBaseCost).okOr (.outOfGas .consumedGasOverflow)
  let intrinsicGas ← if isCreate then do
      let intrinsicGas ← (add 64 intrinsicGas createBaseCost).okOr (.outOfGas .consumedGasOverflow)
      let numberOfWords := (calldata.length + 31) / 32
      let doubleNumberOfWords ← (mul 64 numberOfWords 2).okOr (.outOfGas .consumedGasOverflow)
      (add 64 intrinsicGas doubleNumberOfWords).okOr (.outOfGas .consumedGasOverflow)
    else pure intrinsicGas
  let accessListsCost ← accessList.foldlM (fun accessListsCost (_, keys) => do
      let accessListsCost ←
        (add 64 accessListsCost accessListAddressCost).okOr (.outOfGas .consumedGasOverflow)
      keys.foldlM (fun accessListsCost _ =>
        (add 64 accessListsCost accessListStorageKeyCost).okOr (.outOfGas .consumedGasOverflow))
        accessListsCost) 0
  let intrinsicGas ← (add 64 intrinsicGas accessListsCost).okOr (.outOfGas .consumedGasOverflow)
  (initialCallFrame.increaseConsumedGas intrinsicGas).mapError fun _ =>
    .txValidation .intrinsicGasTooLow

/-! ## Precompiles -/

/-- `SHA2_256_STATIC_COST`. -/
def sha2_256StaticCost : Nat := 60
/-- `SHA2_256_DYNAMIC_BASE`. -/
def sha2_256DynamicBase : Nat := 12

/-- `gas_cost::precompile`: a static cost and a cost per word of input. -/
def GasCost.precompile (dataSize staticCost dynamicBase : Nat) : Except VMError Nat := do
  let dataSize ← (if dataSize < 2 ^ 64 then some dataSize else none).okOr
    (.precompileError .parsingInputError)
  let dataWordCost := (← (add 64 dataSize 31).okOr (.outOfGas .gasCostOverflow)) / 32
  let staticGas := staticCost
  let dynamicGas ← (mul 64 dynamicBase dataWordCost).okOr (.outOfGas .gasCostOverflow)
  (add 64 staticGas dynamicGas).okOr (.outOfGas .gasCostOverflow)

/-- `gas_cost::sha2_256`. -/
def GasCost.sha2_256 (dataSize : Nat) : Except VMError Nat :=
  GasCost.precompile dataSize sha2_256StaticCost sha2_256DynamicBase

/-- `increase_precompile_consumed_gas`: the cost is compared with the gas
given to the call, and added to the gas consumed. -/
def increasePrecompileConsumedGas (gasForCall gasCost consumedGas : Nat) : Except VMError Nat := do
  if gasForCall < gasCost then throw (.precompileError .notEnoughGas)
  (add 64 consumedGas gasCost).okOr (.precompileError .gasConsumedOverflow)

/-- `precompiles::sha2_256`: the output and the gas consumed after it. -/
def sha2_256 (sha256 : Bytes → Bytes) (calldata : Bytes) (gasForCall consumedGas : Nat) :
    Except VMError (Bytes × Nat) := do
  let gasCost ← GasCost.sha2_256 calldata.length
  let consumedGas ← increasePrecompileConsumedGas gasForCall gasCost consumedGas
  pure (sha256 calldata, consumedGas)

/-- `VMError::is_internal`. -/
def VMError.isInternal : VMError → Bool
  | .internal _ => true
  | _ => false

/-- The precompile branch of `VM::execute`, given the precompile at the
frame's code address: on success the report carries the gas the frame
used, on a failure the whole limit, and an internal error is passed on. -/
def executePrecompile (precompile : Bytes → Nat → Nat → Except VMError (Bytes × Nat))
    (calldata : Bytes) (currentCallFrame : CallFrame) : Except VMError (Ethrex.Vm.TxResult × Nat) :=
  match precompile calldata currentCallFrame.gasLimit currentCallFrame.gasUsed with
  | .ok (_, gasUsed) => .ok (.success, gasUsed)
  | .error error =>
    if error.isInternal then .error error else .ok (.revert error, currentCallFrame.gasLimit)

/-! ## After execution -/

/-- The gas arithmetic of `VM::post_execution_changes`: the refund, capped
at a fifth of the gas used; the gas returned to the sender; and the gas
the coinbase is paid for. -/
def postExecutionGas (maxGas consumedGas gasRefunded : Nat) : Except VMError (Nat × Nat × Nat) := do
  let refundedGas := min gasRefunded (consumedGas / 5)
  let gasToReturn ← ((sub maxGas consumedGas).bind fun gas => add 64 gas refundedGas).okOr
    (.internal (.undefinedState 0))
  let gasToPayCoinbase ← (sub consumedGas refundedGas).okOr (.internal (.undefinedState 2))
  pure (refundedGas, gasToReturn, gasToPayCoinbase)

/-! ## Each step -/

theorem increasePrecompileConsumedGas_eq_ok {gasForCall gasCost consumedGas : Nat}
    (hcost : gasCost ≤ gasForCall) (hwidth : consumedGas + gasCost < 2 ^ 64) :
    increasePrecompileConsumedGas gasForCall gasCost consumedGas = .ok (consumedGas + gasCost) := by
  rw [increasePrecompileConsumedGas, if_neg (Nat.not_lt.mpr hcost), add_of_lt hwidth]
  rfl

theorem addIntrinsicGas_call {calldata : Bytes} {calldataCost : Nat} {frame : CallFrame}
    (hcalldata : GasCost.txCalldata calldata = .ok calldataCost)
    (hlimit : frame.gasUsed + (calldataCost + txBaseCost) ≤ frame.gasLimit)
    (hwidth : frame.gasUsed + (calldataCost + txBaseCost) < 2 ^ 64) :
    addIntrinsicGas false calldata [] frame =
      .ok { frame with gasUsed := frame.gasUsed + (calldataCost + txBaseCost) } := by
  have hcharge : frame.increaseConsumedGas (calldataCost + txBaseCost) =
      .ok { frame with gasUsed := frame.gasUsed + (calldataCost + txBaseCost) } :=
    CallFrame.increaseConsumedGas_eq_ok.mpr ⟨hwidth, hlimit, rfl⟩
  have hcost : add 64 0 calldataCost = some calldataCost := by
    rw [add_of_lt (by omega), Nat.zero_add]
  have hbase : add 64 calldataCost txBaseCost = some (calldataCost + txBaseCost) :=
    add_of_lt (by omega)
  have hlists : add 64 (calldataCost + txBaseCost) 0 = some (calldataCost + txBaseCost) := by
    rw [add_of_lt (by omega), Nat.add_zero]
  -- the do block one bind at a time: one simp over the whole block, join
  -- point included, leaves a term the kernel takes seconds to check
  unfold addIntrinsicGas
  rw [hcalldata]
  show ((Except.ok calldataCost : Except OutOfGasError Nat).mapError VMError.outOfGas >>= _) = _
  rw [Except.mapError, Except.ok_bind, hcost, Option.okOr_some, Except.ok_bind, hbase,
    Option.okOr_some, Except.ok_bind, if_neg Bool.false_ne_true, Except.pure_eq_ok, Except.ok_bind]
  dsimp only
  rw [List.foldlM_nil, Except.pure_eq_ok, Except.ok_bind, hlists, Option.okOr_some, Except.ok_bind,
    hcharge]
  rfl

theorem executePrecompile_sha2_256 {sha256 : Bytes → Bytes} {calldata : Bytes} {frame : CallFrame}
    {gasCost : Nat} (hcost : GasCost.sha2_256 calldata.length = .ok gasCost)
    (hfits : gasCost ≤ frame.gasLimit) (hwidth : frame.gasUsed + gasCost < 2 ^ 64) :
    executePrecompile (sha2_256 sha256) calldata frame = .ok (.success, frame.gasUsed + gasCost) := by
  have hrun : sha2_256 sha256 calldata frame.gasLimit frame.gasUsed =
      .ok (sha256 calldata, frame.gasUsed + gasCost) := by
    rw [sha2_256, hcost, Except.ok_bind, increasePrecompileConsumedGas_eq_ok hfits hwidth,
      Except.ok_bind]
    rfl
  rw [executePrecompile, hrun]

theorem postExecutionGas_of_lt {maxGas consumedGas : Nat} (h : maxGas < consumedGas) (gasRefunded : Nat) :
    postExecutionGas maxGas consumedGas gasRefunded = .error (.internal (.undefinedState 0)) := by
  rw [postExecutionGas, sub, if_neg (Nat.not_le.mpr h)]
  rfl

/-! ## The call -/

/-- **A call to a precompile can use more gas than its limit.**  A call
to SHA2-256 whose intrinsic gas fits in the limit, and whose precompile
cost fits in the limit but not in what is left, is charged both: the
frame ends with more gas used than its limit, and the gas arithmetic after
execution fails with `UndefinedState(0)`, an internal error. -/
theorem sha2_256_call_passes_limit (sha256 : Bytes → Bytes) (frame : CallFrame) (calldata : Bytes)
    (gasRefunded calldataCost gasCost : Nat)
    (hcalldata : GasCost.txCalldata calldata = .ok calldataCost)
    (hcost : GasCost.sha2_256 calldata.length = .ok gasCost)
    (hintrinsic : frame.gasUsed + (calldataCost + txBaseCost) ≤ frame.gasLimit)
    (hfits : gasCost ≤ frame.gasLimit)
    (hpast : frame.gasLimit < frame.gasUsed + (calldataCost + txBaseCost) + gasCost)
    (hwidth : frame.gasUsed + (calldataCost + txBaseCost) + gasCost < 2 ^ 64) :
    ∃ frame', addIntrinsicGas false calldata [] frame = .ok frame' ∧
      frame'.gasUsed = frame.gasUsed + (calldataCost + txBaseCost) ∧
      executePrecompile (sha2_256 sha256) calldata frame' = .ok (.success, frame'.gasUsed + gasCost) ∧
      frame'.gasLimit < frame'.gasUsed + gasCost ∧
      postExecutionGas frame'.gasLimit (frame'.gasUsed + gasCost) gasRefunded =
        .error (.internal (.undefinedState 0)) := by
  refine ⟨_, addIntrinsicGas_call hcalldata hintrinsic (by omega), rfl, ?_, hpast, ?_⟩
  · exact executePrecompile_sha2_256 hcost hfits hwidth
  · exact postExecutionGas_of_lt hpast gasRefunded

/-- A frame of 21059 gas, which pays the 21000 of a call without calldata
and not the 60 of SHA2-256 on top. -/
def sha2_256CallFrame : CallFrame :=
  { gasLimit := 21059, gasUsed := 0, msgSender := .replicate 20 0, toAddress := .replicate 20 0,
    stack := ⟨[]⟩, memory := [], isStatic := false }

theorem sha2_256_call_passes_limit_at_21059 :
    ∃ frame', addIntrinsicGas false [] [] sha2_256CallFrame = .ok frame' ∧
      frame'.gasUsed = sha2_256CallFrame.gasUsed + (0 + txBaseCost) ∧
      executePrecompile (sha2_256 id) [] frame' = .ok (.success, frame'.gasUsed + 60) ∧
      frame'.gasLimit < frame'.gasUsed + 60 ∧
      postExecutionGas frame'.gasLimit (frame'.gasUsed + 60) 0 =
        .error (.internal (.undefinedState 0)) :=
  sha2_256_call_passes_limit id sha2_256CallFrame [] 0 0 60 rfl rfl (by decide) (by decide)
    (by decide) (by decide)

end Ethrex.Levm
