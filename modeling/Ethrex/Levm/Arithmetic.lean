/-
# `Ethrex.Levm.Arithmetic` — the arithmetic, comparison and bitwise opcodes

`arithmetic.rs` and `bitwise_comparison.rs`: the twenty-five handlers from
`ADD` to `SAR`.  Each charges its gas (`EXP` by the size of its exponent,
after the pops), pops its operands and pushes one word.  The signed ones
work on unsigned `U256` values by hand: magnitudes (`abs`, `negate`,
`is_negative`), shifts as repeated doubling and halving
(`checked_shift_left`, `checked_shift_right`), masks for `SAR` and
`SIGNEXTEND`; `ADDMOD` and `MULMOD` widen to `U512`.

The handlers of one, two and three operands share a body each
(`unaryOpcode`, `binaryOpcode`, `ternaryOpcode`), applied to the handler's
gas and the word it computes; `EXP` keeps its own.  What they compute is
in `Ethrex.Levm.ArithmeticCorrect`.
-/
import Ethrex.Levm.Memory

namespace Ethrex.Levm

open Ethrex.Rlp (U256)
open Checked

/-! ## The word helpers of the handlers -/

/-- `is_negative`: bit 255. -/
def isNegative (value : U256) : Bool := value.getLsbD 255

/-- `negate`: the complement plus one, wrapping. -/
def negate (value : U256) : U256 := ~~~value + 1

/-- `abs`. -/
def abs (value : U256) : U256 := if isNegative value then negate value else value

/-- `U256::checked_div`. -/
def checkedDiv (a b : U256) : Option U256 := if b = 0 then none else some (a / b)

/-- `U256::checked_rem`. -/
def checkedRem (a b : U256) : Option U256 := if b = 0 then none else some (a % b)

/-- `u256_from_bool`. -/
def u256FromBool (value : Bool) : U256 := if value then 1 else 0

/-- `U256::try_from` a `U512`. -/
def tryIntoU256 (n : Nat) : Option U256 := if n < 2 ^ 256 then some (BitVec.ofNat 256 n) else none

/-- `U256::byte`: byte `index`, counted from the least significant. -/
def byte (value : U256) (index : Nat) : UInt8 := (value.toNat / 2 ^ (8 * index)).toUInt8

/-- `U256::bits`: the number of bits up to the highest one set. -/
def bits (value : U256) : Nat := if value = 0 then 0 else value.toNat.log2 + 1

/-- One iteration of `checked_shift_left`'s loop: the doubling, with the top
bit taken off first when the doubling overflows. -/
def shiftLeftStep (result : U256) : Except VMError U256 :=
  match mul 256 result.toNat 2 with
  | some num => pure (BitVec.ofNat 256 num)
  | none => do
    let onlyMostRepresentativeBitOn ← (pow 256 2 255).okOr (.internal .arithmeticOperationOverflow)
    let partialResult ← (sub result.toNat onlyMostRepresentativeBitOn).okOr
      (.internal .arithmeticOperationUnderflow)
    let num ← (mul 256 partialResult 2).okOr (.internal .arithmeticOperationOverflow)
    pure (BitVec.ofNat 256 num)

/-- The loop of `checked_shift_left` with `shiftsLeft` iterations to go; the
counter is never zero where it is decremented, so its `checked_sub` never
fails. -/
def checkedShiftLeftLoop (result : U256) : Nat → Except VMError U256
  | 0 => pure result
  | shiftsLeft + 1 => do checkedShiftLeftLoop (← shiftLeftStep result) shiftsLeft

/-- `checked_shift_left`: `shift` doublings. -/
def checkedShiftLeft (value shift : U256) : Except VMError U256 :=
  checkedShiftLeftLoop value shift.toNat

/-- The loop of `checked_shift_right`, as `checkedShiftLeftLoop`. -/
def checkedShiftRightLoop (result : U256) : Nat → Except VMError U256
  | 0 => pure result
  | shiftsLeft + 1 => do
    let result ← (checkedDiv result 2).okOr (.internal .arithmeticOperationDividedByZero)
    checkedShiftRightLoop result shiftsLeft

/-- `checked_shift_right`: `shift` halvings. -/
def checkedShiftRight (value shift : U256) : Except VMError U256 :=
  checkedShiftRightLoop value shift.toNat

/-- `arithmetic_shift_right`: a negative value is shifted, then its top
`shift` bits are set with `MAX << (256 - shift)`. -/
def arithmeticShiftRight (value shift : U256) : Except VMError U256 := do
  if value.getLsbD 255 then
    let shifted ← checkedShiftRight value shift
    let maskShift ← (sub 256 shift.toNat).okOr (.internal .arithmeticOperationUnderflow)
    let mask ← checkedShiftLeft (BitVec.allOnes 256) (BitVec.ofNat 256 maskShift)
    pure (shifted ||| mask)
  else checkedShiftRight value shift

/-! ## Gas -/

/-- `EXP_STATIC`. -/
def expStatic : Nat := 10
/-- `EXP_DYNAMIC_BASE`. -/
def expDynamicBase : Nat := 50

/-- `gas_cost::exp`: the static cost and a cost per byte of the exponent. -/
def GasCost.exp (exponent : U256) : Except VMError Nat := do
  let exponentByteSize :=
    (← (Checked.add 64 (bits exponent) 7).okOr (.outOfGas .gasCostOverflow)) / 8
  let exponentByteSize ← (toUsize exponentByteSize).okOr .veryLargeNumber
  let exponentByteSizeCost ←
    (Checked.mul 64 expDynamicBase exponentByteSize).okOr (.outOfGas .gasCostOverflow)
  (Checked.add 64 expStatic exponentByteSizeCost).okOr (.outOfGas .gasCostOverflow)

/-- The arithmetic, comparison and bitwise opcodes. -/
inductive ArithmeticOpcode where
  | add | mul | sub | div | sdiv | mod | smod | addmod | mulmod | exp | signextend
  | lt | gt | slt | sgt | eq | iszero | and | or | xor | not | byte | shl | shr | sar
  deriving DecidableEq, Repr

/-- The static gas of each opcode, `gas_cost::ADD` to `gas_cost::SAR`
(`EXP_STATIC` for `EXP`). -/
def ArithmeticOpcode.staticGas : ArithmeticOpcode → Nat
  | .add | .sub | .lt | .gt | .slt | .sgt | .eq | .iszero | .and | .or | .xor | .not | .byte
  | .shl | .shr | .sar => 3
  | .mul | .div | .sdiv | .mod | .smod | .signextend => 5
  | .addmod | .mulmod => 8
  | .exp => expStatic

/-! ## The handlers -/

namespace CallFrame

/-- The body of the handlers of one operand: charge, pop, push `f` of it. -/
def unaryOpcode (gasCost : Nat) (f : U256 → U256) (frame : CallFrame) :
    Except VMError CallFrame := do
  let frame ← frame.increaseConsumedGas gasCost
  let (operand, stack) ← frame.stack.pop
  let stack ← stack.push (f operand)
  pure { frame with stack }

/-- The body of the handlers of two operands: charge, pop the first and the
second, push what `f` computes of them. -/
def binaryOpcode (gasCost : Nat) (f : U256 → U256 → Except VMError U256) (frame : CallFrame) :
    Except VMError CallFrame := do
  let frame ← frame.increaseConsumedGas gasCost
  let (first, stack) ← frame.stack.pop
  let (second, stack) ← stack.pop
  let result ← f first second
  let stack ← stack.push result
  pure { frame with stack }

/-- The body of the handlers of three operands. -/
def ternaryOpcode (gasCost : Nat) (f : U256 → U256 → U256 → Except VMError U256)
    (frame : CallFrame) : Except VMError CallFrame := do
  let frame ← frame.increaseConsumedGas gasCost
  let (first, stack) ← frame.stack.pop
  let (second, stack) ← stack.pop
  let (third, stack) ← stack.pop
  let result ← f first second third
  let stack ← stack.push result
  pure { frame with stack }

/-- `VM::op_add`: `overflowing_add`, the wrapped sum. -/
def opAdd : CallFrame → Except VMError CallFrame :=
  binaryOpcode (ArithmeticOpcode.staticGas .add) fun augend addend => pure (augend + addend)

/-- `VM::op_sub`. -/
def opSub : CallFrame → Except VMError CallFrame :=
  binaryOpcode (ArithmeticOpcode.staticGas .sub) fun minuend subtrahend =>
    pure (minuend - subtrahend)

/-- `VM::op_mul`. -/
def opMul : CallFrame → Except VMError CallFrame :=
  binaryOpcode (ArithmeticOpcode.staticGas .mul) fun multiplicand multiplier =>
    pure (multiplicand * multiplier)

/-- `VM::op_div`: zero for a zero divisor. -/
def opDiv : CallFrame → Except VMError CallFrame :=
  binaryOpcode (ArithmeticOpcode.staticGas .div) fun dividend divisor =>
    match checkedDiv dividend divisor with
    | some quotient => pure quotient
    | none => pure 0

/-- `VM::op_sdiv`: the quotient of the magnitudes, negated when the signs
differ. -/
def opSdiv : CallFrame → Except VMError CallFrame :=
  binaryOpcode (ArithmeticOpcode.staticGas .sdiv) fun dividend divisor => do
    if divisor = 0 ∨ dividend = 0 then return 0
    let absDividend := abs dividend
    let absDivisor := abs divisor
    let quotient := match checkedDiv absDividend absDivisor with
      | some quot =>
        let quotientIsNegative := isNegative dividend ^^ isNegative divisor
        if quotientIsNegative then negate quot else quot
      | none => 0
    pure quotient

/-- `VM::op_mod`: `checked_rem(..).unwrap_or_default()`. -/
def opMod : CallFrame → Except VMError CallFrame :=
  binaryOpcode (ArithmeticOpcode.staticGas .mod) fun dividend divisor =>
    pure ((checkedRem dividend divisor).getD 0)

/-- `VM::op_smod`: the remainder of the magnitudes, with the dividend's
sign. -/
def opSmod : CallFrame → Except VMError CallFrame :=
  binaryOpcode (ArithmeticOpcode.staticGas .smod) fun uncheckedDividend uncheckedDivisor => do
    if uncheckedDivisor = 0 ∨ uncheckedDividend = 0 then return 0
    let divisor := abs uncheckedDivisor
    let dividend := abs uncheckedDividend
    let some uncheckedRemainder := checkedRem dividend divisor | return 0
    let remainder :=
      if isNegative uncheckedDividend then negate uncheckedRemainder else uncheckedRemainder
    pure remainder

/-- `VM::op_addmod`: the sum taken in `U512`. -/
def opAddmod : CallFrame → Except VMError CallFrame :=
  ternaryOpcode (ArithmeticOpcode.staticGas .addmod) fun augend addend modulus => do
    if modulus = 0 then return 0
    let sum ← (add 512 augend.toNat addend.toNat).okOr (.internal .arithmeticOperationOverflow)
    let sumMod ← (rem sum modulus.toNat).okOr (.internal .arithmeticOperationOverflow)
    (tryIntoU256 sumMod).okOr (.internal .arithmeticOperationOverflow)

/-- `VM::op_mulmod`: the product taken in `U512`. -/
def opMulmod : CallFrame → Except VMError CallFrame :=
  ternaryOpcode (ArithmeticOpcode.staticGas .mulmod) fun multiplicand multiplier modulus => do
    if modulus = 0 ∨ multiplicand = 0 ∨ multiplier = 0 then return 0
    let product ← (mul 512 multiplicand.toNat multiplier.toNat).okOr
      (.internal .arithmeticOperationOverflow)
    let productMod ← (rem product modulus.toNat).okOr (.internal .arithmeticOperationOverflow)
    (tryIntoU256 productMod).okOr (.internal .arithmeticOperationOverflow)

/-- `VM::op_exp`: both operands popped before the charge, which depends on
the exponent; `overflowing_pow`, the wrapped power. -/
def opExp (frame : CallFrame) : Except VMError CallFrame := do
  let (base, stack) ← frame.stack.pop
  let (exponent, stack) ← stack.pop
  let gasCost ← GasCost.exp exponent
  let frame ← { frame with stack }.increaseConsumedGas gasCost
  let stack ← frame.stack.push (base ^ exponent.toNat)
  pure { frame with stack }

/-- `VM::op_signextend`: bit `8 b + 7` is the sign; the bits below it are
kept and those above it cleared or set. -/
def opSignextend : CallFrame → Except VMError CallFrame :=
  binaryOpcode (ArithmeticOpcode.staticGas .signextend) fun byteSizeMinusOne valueToExtend => do
    if byteSizeMinusOne > 31 then return valueToExtend
    let bitsPerByte : U256 := 8
    let signBitPositionOnByte : U256 := 7
    let signBitIndex ← ((mul 256 bitsPerByte.toNat byteSizeMinusOne.toNat).bind fun totalBits =>
      add 256 totalBits signBitPositionOnByte.toNat).okOr (.internal .arithmeticOperationOverflow)
    let shiftedValue ← checkedShiftRight valueToExtend (BitVec.ofNat 256 signBitIndex)
    let signBit := shiftedValue &&& 1
    let signBitMask ← (sub (← checkedShiftLeft 1 (BitVec.ofNat 256 signBitIndex)).toNat 1).okOr
      (.internal .arithmeticOperationUnderflow)
    let signBitMask : U256 := BitVec.ofNat 256 signBitMask
    pure (if signBit = 0 then valueToExtend &&& signBitMask else valueToExtend ||| ~~~signBitMask)

/-- `VM::op_lt`. -/
def opLt : CallFrame → Except VMError CallFrame :=
  binaryOpcode (ArithmeticOpcode.staticGas .lt) fun lho rho => pure (u256FromBool (lho < rho))

/-- `VM::op_gt`. -/
def opGt : CallFrame → Except VMError CallFrame :=
  binaryOpcode (ArithmeticOpcode.staticGas .gt) fun lho rho => pure (u256FromBool (lho > rho))

/-- `VM::op_slt`: the magnitudes compared when the signs agree, the negative
operand the smaller when they differ. -/
def opSlt : CallFrame → Except VMError CallFrame :=
  binaryOpcode (ArithmeticOpcode.staticGas .slt) fun lho rho =>
    let lhoIsNegative := lho.getLsbD 255
    let rhoIsNegative := rho.getLsbD 255
    pure (if lhoIsNegative = rhoIsNegative then u256FromBool (lho < rho)
      else u256FromBool lhoIsNegative)

/-- `VM::op_sgt`. -/
def opSgt : CallFrame → Except VMError CallFrame :=
  binaryOpcode (ArithmeticOpcode.staticGas .sgt) fun lho rho =>
    let lhoIsNegative := lho.getLsbD 255
    let rhoIsNegative := rho.getLsbD 255
    pure (if lhoIsNegative = rhoIsNegative then u256FromBool (lho > rho)
      else u256FromBool rhoIsNegative)

/-- `VM::op_eq`. -/
def opEq : CallFrame → Except VMError CallFrame :=
  binaryOpcode (ArithmeticOpcode.staticGas .eq) fun lho rho => pure (u256FromBool (lho = rho))

/-- `VM::op_iszero`. -/
def opIszero : CallFrame → Except VMError CallFrame :=
  unaryOpcode (ArithmeticOpcode.staticGas .iszero) fun operand => u256FromBool (operand = 0)

/-- `VM::op_and`. -/
def opAnd : CallFrame → Except VMError CallFrame :=
  binaryOpcode (ArithmeticOpcode.staticGas .and) fun a b => pure (a &&& b)

/-- `VM::op_or`. -/
def opOr : CallFrame → Except VMError CallFrame :=
  binaryOpcode (ArithmeticOpcode.staticGas .or) fun a b => pure (a ||| b)

/-- `VM::op_xor`. -/
def opXor : CallFrame → Except VMError CallFrame :=
  binaryOpcode (ArithmeticOpcode.staticGas .xor) fun a b => pure (a ^^^ b)

/-- `VM::op_not`. -/
def opNot : CallFrame → Except VMError CallFrame :=
  unaryOpcode (ArithmeticOpcode.staticGas .not) fun a => ~~~a

/-- `VM::op_byte`: byte `op1` of `op2` counted from the most significant,
zero for an index past the word or past `usize`. -/
def opByte : CallFrame → Except VMError CallFrame :=
  binaryOpcode (ArithmeticOpcode.staticGas .byte) fun op1 op2 => do
    let some byteIndex := toUsize op1.toNat | return 0
    if byteIndex < wordSize then
      let byteToPush ← (sub wordSize byteIndex).okOr (.internal .arithmeticOperationUnderflow)
      let byteToPush ← (sub byteToPush 1).okOr (.internal .arithmeticOperationUnderflow)
      pure (BitVec.ofNat 256 (byte op2 byteToPush).toNat)
    else pure 0

/-- `VM::op_shl`. -/
def opShl : CallFrame → Except VMError CallFrame :=
  binaryOpcode (ArithmeticOpcode.staticGas .shl) fun shift value =>
    if shift < 256 then checkedShiftLeft value shift else pure 0

/-- `VM::op_shr`. -/
def opShr : CallFrame → Except VMError CallFrame :=
  binaryOpcode (ArithmeticOpcode.staticGas .shr) fun shift value =>
    if shift < 256 then checkedShiftRight value shift else pure 0

/-- `VM::op_sar`: past 255, all ones for a negative value and zero for
another. -/
def opSar : CallFrame → Except VMError CallFrame :=
  binaryOpcode (ArithmeticOpcode.staticGas .sar) fun shift value =>
    if shift < 256 then arithmeticShiftRight value shift
    else if value.getLsbD 255 then pure (BitVec.allOnes 256) else pure 0

/-- `VM::execute`'s dispatch of these opcodes to their handlers. -/
def executeArithmeticOpcode (frame : CallFrame) : ArithmeticOpcode → Except VMError CallFrame
  | .add => frame.opAdd
  | .mul => frame.opMul
  | .sub => frame.opSub
  | .div => frame.opDiv
  | .sdiv => frame.opSdiv
  | .mod => frame.opMod
  | .smod => frame.opSmod
  | .addmod => frame.opAddmod
  | .mulmod => frame.opMulmod
  | .exp => frame.opExp
  | .signextend => frame.opSignextend
  | .lt => frame.opLt
  | .gt => frame.opGt
  | .slt => frame.opSlt
  | .sgt => frame.opSgt
  | .eq => frame.opEq
  | .iszero => frame.opIszero
  | .and => frame.opAnd
  | .or => frame.opOr
  | .xor => frame.opXor
  | .not => frame.opNot
  | .byte => frame.opByte
  | .shl => frame.opShl
  | .shr => frame.opShr
  | .sar => frame.opSar

end CallFrame

end Ethrex.Levm
