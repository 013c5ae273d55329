/-
# `Ethrex.Levm.CallFrame` — a call frame of LEVM and its gas meter

What the opcode handlers modelled here read of `call_frame.rs` and
`errors.rs`: the operand stack (`Stack`, at most `STACK_LIMIT` words), the
frame's memory, its gas limit and the gas it has used, the address it runs
at (`to`, named `toAddress` here: `to` is a keyword of Lean) and the one
that called it (`msg_sender`), and whether it is static.  `VM::increase_consumed_gas` (`vm.rs`) touches only the frame, so
here it is a function of the frame.

The `u64` and `usize` counters are `Nat`s; each `checked_*` of the source is
the `Checked` operation at its width, so an overflow is the error the
source reports and never a wrap.
-/
import Ethrex.Lib.Checked
import Ethrex.Rlp.Encode

namespace Ethrex.Levm

open Ethrex.Rlp (U256 Address)

/-- `OutOfGasError`: the variants the modelled handlers raise. -/
inductive OutOfGasError where
  | gasCostOverflow
  | consumedGasOverflow
  | maxGasLimitExceeded
  | memoryExpansionCostOverflow
  | gasUsedOverflow
  deriving DecidableEq, Repr

/-- `InternalError`: the variants the modelled handlers raise. -/
inductive InternalError where
  | arithmeticOperationUnderflow
  | arithmeticOperationOverflow
  | arithmeticOperationDividedByZero
  | pcOverflowed
  | undefinedState (n : Int)
  deriving DecidableEq, Repr

/-- `TxValidationError`: the variants the modelled checks raise. -/
inductive TxValidationError where
  | intrinsicGasTooLow
  deriving DecidableEq, Repr

/-- `PrecompileError`: the variants the modelled precompiles raise. -/
inductive PrecompileError where
  | parsingInputError
  | gasConsumedOverflow
  | notEnoughGas
  deriving DecidableEq, Repr

/-- `VMError`: the variants the modelled handlers raise. -/
inductive VMError where
  | stackUnderflow
  | stackOverflow
  | opcodeNotAllowedInStaticContext
  | veryLargeNumber
  | outOfBounds
  | memorySizeOverflow
  | gasRefundsOverflow
  | gasRefundsUnderflow
  | revertOpcode
  | outOfGas (e : OutOfGasError)
  | internal (e : InternalError)
  | invalidTransaction
  | txValidation (e : TxValidationError)
  | precompileError (e : PrecompileError)
  | invalidJump
  deriving DecidableEq, Repr

/-- `STACK_LIMIT`. -/
def stackLimit : Nat := 1024

/-- `Stack`, top first: the Rust vector pushes and pops at its end. -/
structure Stack where
  stack : List U256
  deriving DecidableEq, Repr

/-- `Stack::pop`. -/
def Stack.pop (self : Stack) : Except VMError (U256 × Stack) :=
  match self.stack with
  | [] => .error .stackUnderflow
  | value :: rest => .ok (value, ⟨rest⟩)

/-- `Stack::push`. -/
def Stack.push (self : Stack) (value : U256) : Except VMError Stack :=
  if self.stack.length ≥ stackLimit then .error .stackOverflow else .ok ⟨value :: self.stack⟩

@[simp] theorem Stack.pop_cons (value : U256) (rest : List U256) :
    Stack.pop ⟨value :: rest⟩ = .ok (value, ⟨rest⟩) := rfl

theorem Stack.pop_eq_ok {s s' : Stack} {v : U256} : s.pop = .ok (v, s') ↔ s.stack = v :: s'.stack := by
  rcases s with ⟨_ | ⟨w, rest⟩⟩
  · simp [Stack.pop]
  · cases s'
    simp [Stack.pop, eq_comm]

theorem Stack.push_of_lt {s : Stack} (v : U256) (h : s.stack.length < stackLimit) :
    s.push v = .ok ⟨v :: s.stack⟩ := by
  unfold Stack.push
  rw [if_neg (by omega)]

theorem Stack.push_eq_ok {s s' : Stack} {v : U256} : s.push v = .ok s' → s'.stack = v :: s.stack := by
  unfold Stack.push
  split_ifs
  · intro h; cases h
  · intro h
    cases h
    rfl

/-- `Memory`: `Vec<u8>`. -/
abbrev Memory := List UInt8

/-- The fields of `CallFrame` the modelled handlers read or write. -/
structure CallFrame where
  gasLimit : Nat
  gasUsed : Nat
  msgSender : Address
  toAddress : Address
  stack : Stack
  memory : Memory
  isStatic : Bool

/-- `VM::increase_consumed_gas`: fails when the frame's limit would be
passed, and then the frame is left as it was. -/
def CallFrame.increaseConsumedGas (frame : CallFrame) (gas : Nat) : Except VMError CallFrame := do
  let potentialConsumedGas ←
    (Checked.add 64 frame.gasUsed gas).okOr (.outOfGas .consumedGasOverflow)
  if potentialConsumedGas > frame.gasLimit then throw (.outOfGas .maxGasLimitExceeded)
  pure { frame with gasUsed := potentialConsumedGas }

theorem CallFrame.increaseConsumedGas_eq_ok {frame frame' : CallFrame} {gas : Nat} :
    frame.increaseConsumedGas gas = .ok frame' ↔
      frame.gasUsed + gas < 2 ^ 64 ∧ frame.gasUsed + gas ≤ frame.gasLimit ∧
        frame' = { frame with gasUsed := frame.gasUsed + gas } := by
  unfold increaseConsumedGas
  by_cases hw : frame.gasUsed + gas < 2 ^ 64
  · rw [Checked.add_of_lt hw]
    by_cases hl : frame.gasUsed + gas ≤ frame.gasLimit
    · have hng : ¬ frame.gasUsed + gas > frame.gasLimit := by omega
      simp only [Option.okOr_some, Except.ok_bind, if_neg hng]
      simp only [Except.pure_eq_ok, Except.ok.injEq]
      exact ⟨fun h => ⟨hw, hl, h.symm⟩, fun ⟨_, _, h⟩ => h.symm⟩
    · have hg : frame.gasUsed + gas > frame.gasLimit := by omega
      simp only [Option.okOr_some, Except.ok_bind, if_pos hg]
      simp [hl]
  · rw [Checked.add_eq_none_iff.mpr (by omega)]
    simp only [Option.okOr_none, Except.error_bind]
    exact ⟨fun h => (nomatch h), fun ⟨h, _⟩ => absurd h hw⟩

theorem CallFrame.increaseConsumedGas_of_le {frame : CallFrame} {gas : Nat}
    (hgas : frame.gasUsed + gas ≤ frame.gasLimit) (hwidth : frame.gasLimit < 2 ^ 64) :
    frame.increaseConsumedGas gas = .ok { frame with gasUsed := frame.gasUsed + gas } :=
  increaseConsumedGas_eq_ok.mpr ⟨by omega, hgas, rfl⟩

end Ethrex.Levm
