/-
# `Ethrex.Levm.ArithmeticCorrect` — the arithmetic opcodes compute the Yellow Paper's functions

`YellowPaper` says what each opcode of `Ethrex.Levm.Arithmetic` computes, on
the operands read as natural numbers or as two's-complement integers:
wrapping sums, differences, products and powers; quotients and remainders
that are zero for a zero divisor, the signed ones rounded toward zero with
the remainder taking the dividend's sign; `ADDMOD` and `MULMOD` exact
before the modulus; comparisons, `BYTE` and the shifts, zero (or all ones,
for `SAR`) past the word.

The word helpers are the word operations they stand for: the shift loops
shift (`checkedShiftLeftLoop_eq`, `checkedShiftRightLoop_eq`), and the
magnitudes and masks are Lean's signed operations by the recipes of
`TwosComplement`.  From those, each handler is the generic handler of its
arity over its Yellow Paper function (`opSdiv_eq` and the like), and so
every opcode, on a stack holding its operands and with gas for its charge,
pops them and pushes their Yellow Paper value
(`arithmetic_opcodes_yellow_paper`).
-/
import Ethrex.Levm.Arithmetic
import Ethrex.Lib.TwosComplement

namespace Ethrex.Levm

open Ethrex.Rlp (U256)
open Checked

/-! ## What the opcodes compute -/

namespace YellowPaper

/-- `ADD`: the sum modulo `2 ^ 256`. -/
def add (a b : U256) : U256 := BitVec.ofNat 256 (a.toNat + b.toNat)
/-- `SUB`: the difference modulo `2 ^ 256`. -/
def sub (a b : U256) : U256 := BitVec.ofInt 256 ((a.toNat : Int) - b.toNat)
/-- `MUL`: the product modulo `2 ^ 256`. -/
def mul (a b : U256) : U256 := BitVec.ofNat 256 (a.toNat * b.toNat)
/-- `DIV`: zero for a zero divisor, else the quotient. -/
def div (a b : U256) : U256 := if b = 0 then 0 else BitVec.ofNat 256 (a.toNat / b.toNat)
/-- `SDIV`: zero for a zero divisor, else the quotient of the signed values
rounded toward zero, modulo `2 ^ 256`. -/
def sdiv (a b : U256) : U256 := if b = 0 then 0 else BitVec.ofInt 256 (a.toInt.tdiv b.toInt)
/-- `MOD`: zero for a zero divisor, else the remainder. -/
def mod (a b : U256) : U256 := if b = 0 then 0 else BitVec.ofNat 256 (a.toNat % b.toNat)
/-- `SMOD`: zero for a zero divisor, else the remainder of the signed
values with the sign of the dividend. -/
def smod (a b : U256) : U256 := if b = 0 then 0 else BitVec.ofInt 256 (a.toInt.tmod b.toInt)
/-- `ADDMOD`: zero for a zero modulus, else the exact sum modulo it. -/
def addmod (a b n : U256) : U256 :=
  if n = 0 then 0 else BitVec.ofNat 256 ((a.toNat + b.toNat) % n.toNat)
/-- `MULMOD`: zero for a zero modulus, else the exact product modulo it. -/
def mulmod (a b n : U256) : U256 :=
  if n = 0 then 0 else BitVec.ofNat 256 ((a.toNat * b.toNat) % n.toNat)
/-- `EXP`: the power modulo `2 ^ 256`. -/
def exp (a b : U256) : U256 := BitVec.ofNat 256 (a.toNat ^ b.toNat)
/-- `SIGNEXTEND`: the low `b + 1` bytes read as a two's-complement number;
the word itself from `b = 31` on. -/
def signextend (b x : U256) : U256 :=
  if b.toNat < 31 then (x.setWidth (8 * b.toNat + 8)).signExtend 256 else x
/-- `LT`. -/
def lt (a b : U256) : U256 := if a.toNat < b.toNat then 1 else 0
/-- `GT`. -/
def gt (a b : U256) : U256 := if b.toNat < a.toNat then 1 else 0
/-- `SLT`: on the signed values. -/
def slt (a b : U256) : U256 := if a.toInt < b.toInt then 1 else 0
/-- `SGT`: on the signed values. -/
def sgt (a b : U256) : U256 := if b.toInt < a.toInt then 1 else 0
/-- `EQ`. -/
def eq (a b : U256) : U256 := if a = b then 1 else 0
/-- `ISZERO`. -/
def iszero (a : U256) : U256 := if a = 0 then 1 else 0
/-- `BYTE`: byte `i` counted from the most significant, zero from `i = 32`
on. -/
def byte (i x : U256) : U256 :=
  if i.toNat < 32 then BitVec.ofNat 256 (x.toNat / 2 ^ (8 * (31 - i.toNat)) % 2 ^ 8) else 0
/-- `SHL`: modulo `2 ^ 256`, so zero from a shift of 256 on. -/
def shl (s x : U256) : U256 := BitVec.ofNat 256 (x.toNat * 2 ^ s.toNat)
/-- `SHR`. -/
def shr (s x : U256) : U256 := BitVec.ofNat 256 (x.toNat / 2 ^ s.toNat)
/-- `SAR`: the signed value divided by `2 ^ s`, rounded down; zero or all
ones from a shift of 256 on. -/
def sar (s x : U256) : U256 := BitVec.ofInt 256 (x.toInt / 2 ^ s.toNat)

end YellowPaper

/-- How many words an opcode pops. -/
def ArithmeticOpcode.arity : ArithmeticOpcode → Nat
  | .iszero | .not => 1
  | .addmod | .mulmod => 3
  | _ => 2

/-- The gas an opcode charges for its operands, top first. -/
def ArithmeticOpcode.gasCost : ArithmeticOpcode → List U256 → Nat
  | .exp, [_, exponent] => expStatic + expDynamicBase * ((bits exponent + 7) / 8)
  | op, _ => op.staticGas

/-- The word an opcode pushes for its operands, top first: the Yellow
Paper's function of them. -/
def ArithmeticOpcode.yellowPaper : ArithmeticOpcode → List U256 → U256
  | .add, [a, b] => YellowPaper.add a b
  | .mul, [a, b] => YellowPaper.mul a b
  | .sub, [a, b] => YellowPaper.sub a b
  | .div, [a, b] => YellowPaper.div a b
  | .sdiv, [a, b] => YellowPaper.sdiv a b
  | .mod, [a, b] => YellowPaper.mod a b
  | .smod, [a, b] => YellowPaper.smod a b
  | .addmod, [a, b, n] => YellowPaper.addmod a b n
  | .mulmod, [a, b, n] => YellowPaper.mulmod a b n
  | .exp, [a, b] => YellowPaper.exp a b
  | .signextend, [b, x] => YellowPaper.signextend b x
  | .lt, [a, b] => YellowPaper.lt a b
  | .gt, [a, b] => YellowPaper.gt a b
  | .slt, [a, b] => YellowPaper.slt a b
  | .sgt, [a, b] => YellowPaper.sgt a b
  | .eq, [a, b] => YellowPaper.eq a b
  | .iszero, [a] => YellowPaper.iszero a
  | .and, [a, b] => a &&& b
  | .or, [a, b] => a ||| b
  | .xor, [a, b] => a ^^^ b
  | .not, [a] => ~~~a
  | .byte, [i, x] => YellowPaper.byte i x
  | .shl, [s, x] => YellowPaper.shl s x
  | .shr, [s, x] => YellowPaper.shr s x
  | .sar, [s, x] => YellowPaper.sar s x
  | _, _ => 0

theorem ArithmeticOpcode.gasCost_of_ne_exp {op : ArithmeticOpcode} (h : op ≠ .exp) (operands : List U256) :
    op.gasCost operands = op.staticGas := by
  cases op <;> first | rfl | exact absurd rfl h

theorem ArithmeticOpcode.arity_cases (op : ArithmeticOpcode) :
    op.arity = 1 ∨ op.arity = 2 ∨ op.arity = 3 := by
  cases op <;> decide

/-! ## The word helpers compute the word operations -/

theorem bits_le (value : U256) : bits value ≤ 256 := by
  unfold bits
  split
  · omega
  · rename_i h
    have hne : value.toNat ≠ 0 := fun h0 => h (BitVec.eq_of_toNat_eq (by rw [h0]; rfl))
    have hlog := (Nat.log2_lt hne).mpr value.isLt
    omega

theorem GasCost.exp_eq (exponent : U256) :
    GasCost.exp exponent = .ok (expStatic + expDynamicBase * ((bits exponent + 7) / 8)) := by
  have hbits := bits_le exponent
  unfold GasCost.exp
  rw [add_of_lt (by omega), Option.okOr_some, Except.ok_bind]
  dsimp only
  rw [show toUsize ((bits exponent + 7) / 8) = some ((bits exponent + 7) / 8) from if_pos (by omega),
    Option.okOr_some, Except.ok_bind, mul_of_lt (by unfold expDynamicBase; omega), Option.okOr_some,
    Except.ok_bind, add_of_lt (by unfold expStatic expDynamicBase; omega)]
  rfl

theorem getLsbD_255_eq_msb (value : U256) : value.getLsbD 255 = value.msb := by
  rw [BitVec.msb_eq_getLsbD_last]

theorem isNegative_eq_msb (value : U256) : isNegative value = value.msb := getLsbD_255_eq_msb value

theorem negate_eq_neg (value : U256) : negate value = -value := (BitVec.neg_eq_not_add value).symm

theorem abs_eq_magnitude (value : U256) : abs value = TwosComplement.magnitude value := by
  rw [abs, TwosComplement.magnitude, isNegative_eq_msb, negate_eq_neg]

theorem toNat_pos_of_ne_zero {value : U256} (h : value ≠ 0) : 0 < value.toNat :=
  Nat.pos_of_ne_zero fun h0 => h (BitVec.eq_of_toNat_eq (by rw [h0]; rfl))

theorem checkedDiv_of_ne_zero {a b : U256} (h : b ≠ 0) : checkedDiv a b = some (a / b) := if_neg h

theorem checkedRem_of_ne_zero {a b : U256} (h : b ≠ 0) : checkedRem a b = some (a % b) := if_neg h

theorem shiftLeftStep_eq (result : U256) : shiftLeftStep result = .ok (result <<< 1) := by
  have hlt := result.isLt
  have hshift : (result <<< 1).toNat = result.toNat * 2 % 2 ^ 256 := by
    rw [BitVec.toNat_shiftLeft, Nat.shiftLeft_eq, Nat.pow_one]
  unfold shiftLeftStep
  by_cases hfit : result.toNat * 2 < 2 ^ 256
  · rw [mul_of_lt hfit]
    apply congrArg Except.ok
    apply BitVec.eq_of_toNat_eq
    rw [BitVec.toNat_ofNat, hshift]
  · -- the top bit is set: it is taken off before the doubling
    rw [show mul 256 result.toNat 2 = none from if_neg hfit, pow_of_lt (by decide),
      Option.okOr_some, Except.ok_bind, sub_of_le (by omega), Option.okOr_some, Except.ok_bind,
      mul_of_lt (by omega), Option.okOr_some, Except.ok_bind]
    apply congrArg Except.ok
    apply BitVec.eq_of_toNat_eq
    rw [BitVec.toNat_ofNat, hshift]
    omega

theorem checkedShiftLeftLoop_eq : ∀ (result : U256) (shiftsLeft : Nat),
    checkedShiftLeftLoop result shiftsLeft = .ok (result <<< shiftsLeft)
  | result, 0 => by
    rw [checkedShiftLeftLoop, BitVec.shiftLeft_zero]
    rfl
  | result, shiftsLeft + 1 => by
    rw [checkedShiftLeftLoop, shiftLeftStep_eq, Except.ok_bind, checkedShiftLeftLoop_eq,
      Nat.add_comm, BitVec.shiftLeft_add]

theorem checkedShiftLeft_eq (value shift : U256) :
    checkedShiftLeft value shift = .ok (value <<< shift.toNat) :=
  checkedShiftLeftLoop_eq value shift.toNat

theorem checkedShiftRightLoop_eq : ∀ (result : U256) (shiftsLeft : Nat),
    checkedShiftRightLoop result shiftsLeft = .ok (result >>> shiftsLeft)
  | result, 0 => by
    rw [checkedShiftRightLoop, BitVec.ushiftRight_zero]
    rfl
  | result, shiftsLeft + 1 => by
    have hhalf : result / (2 : U256) = result >>> 1 := by
      apply BitVec.eq_of_toNat_eq
      rw [BitVec.toNat_udiv, BitVec.toNat_ushiftRight, Nat.shiftRight_eq_div_pow]
      rfl
    rw [checkedShiftRightLoop, checkedDiv_of_ne_zero (by decide), Option.okOr_some, Except.ok_bind,
      checkedShiftRightLoop_eq, hhalf, Nat.add_comm, BitVec.shiftRight_add]

theorem checkedShiftRight_eq (value shift : U256) :
    checkedShiftRight value shift = .ok (value >>> shift.toNat) :=
  checkedShiftRightLoop_eq value shift.toNat

/-- `arithmetic_shift_right` is the arithmetic shift, for every shift the
handler gives it. -/
theorem arithmeticShiftRight_eq {value shift : U256} (hshift : shift.toNat ≤ 256) :
    arithmeticShiftRight value shift = .ok (value.sshiftRight shift.toNat) := by
  unfold arithmeticShiftRight
  cases hsign : value.getLsbD 255
  · have hmsb : value.msb = false := by rw [← isNegative_eq_msb]; exact hsign
    rw [if_neg (by simp), checkedShiftRight_eq, BitVec.sshiftRight_eq_of_msb_false hmsb]
  · have hmsb : value.msb = true := by rw [← isNegative_eq_msb]; exact hsign
    have hmask : (BitVec.ofNat 256 (256 - shift.toNat)).toNat = 256 - shift.toNat := by
      rw [BitVec.toNat_ofNat]
      omega
    rw [if_pos rfl, checkedShiftRight_eq, Except.ok_bind, sub_of_le hshift, Option.okOr_some,
      Except.ok_bind, checkedShiftLeft_eq, Except.ok_bind, hmask,
      TwosComplement.sshiftRight_of_msb hmsb]
    rfl

theorem lt_256_iff (shift : U256) : shift < 256 ↔ shift.toNat < 256 := BitVec.lt_def

theorem le_toNat_of_not_lt_256 {shift : U256} (h : ¬ shift < 256) : 256 ≤ shift.toNat := by
  rw [lt_256_iff] at h
  omega

theorem sshiftRight_of_le {value : U256} {s : Nat} (hs : 256 ≤ s) :
    value.sshiftRight s = if value.getLsbD 255 then BitVec.allOnes 256 else 0 := by
  cases hsign : value.getLsbD 255
  · have hmsb : value.msb = false := by rw [← getLsbD_255_eq_msb]; exact hsign
    rw [if_neg (by simp), BitVec.sshiftRight_eq_of_msb_false hmsb, BitVec.ushiftRight_eq_zero hs]
    rfl
  · have hmsb : value.msb = true := by rw [← getLsbD_255_eq_msb]; exact hsign
    rw [if_pos rfl, TwosComplement.sshiftRight_of_msb hmsb, BitVec.ushiftRight_eq_zero hs,
      show 256 - s = 0 by omega, BitVec.shiftLeft_zero]
    simp

/-! ## Each word function is the Yellow Paper's -/

theorem sub_eq_yellowPaper (a b : U256) : a - b = YellowPaper.sub a b := by
  apply BitVec.eq_of_toNat_eq
  have ha := a.isLt
  have hb := b.isLt
  rw [YellowPaper.sub, BitVec.toNat_sub, BitVec.toNat_ofInt]
  omega

theorem mul_eq_yellowPaper (a b : U256) : a * b = YellowPaper.mul a b := by
  apply BitVec.eq_of_toNat_eq
  rw [YellowPaper.mul, BitVec.toNat_mul, BitVec.toNat_ofNat]

theorem pow_eq_yellowPaper (a b : U256) : a ^ b.toNat = YellowPaper.exp a b := by
  unfold YellowPaper.exp
  induction b.toNat with
  | zero => rfl
  | succ n ih =>
    rw [BitVec.pow_succ, ih]
    apply BitVec.eq_of_toNat_eq
    rw [BitVec.toNat_mul, BitVec.toNat_ofNat, BitVec.toNat_ofNat, Nat.mod_mul_mod, ← Nat.pow_succ]

theorem shiftLeft_eq_yellowPaper (s x : U256) : x <<< s.toNat = YellowPaper.shl s x := by
  apply BitVec.eq_of_toNat_eq
  rw [YellowPaper.shl, BitVec.toNat_shiftLeft, BitVec.toNat_ofNat, Nat.shiftLeft_eq]

theorem ushiftRight_eq_yellowPaper (s x : U256) : x >>> s.toNat = YellowPaper.shr s x := by
  apply BitVec.eq_of_toNat_eq
  have hlt : x.toNat / 2 ^ s.toNat < 2 ^ 256 := Nat.lt_of_le_of_lt (Nat.div_le_self _ _) x.isLt
  rw [YellowPaper.shr, BitVec.toNat_ushiftRight, BitVec.toNat_ofNat, Nat.shiftRight_eq_div_pow,
    Nat.mod_eq_of_lt hlt]

theorem sshiftRight_eq_yellowPaper (s x : U256) : x.sshiftRight s.toNat = YellowPaper.sar s x := by
  rw [YellowPaper.sar, BitVec.sshiftRight, Int.shiftRight_eq_div_pow, Int.natCast_pow]
  rfl

theorem YellowPaper.shl_of_le {s x : U256} (h : 256 ≤ s.toNat) : YellowPaper.shl s x = 0 := by
  rw [← shiftLeft_eq_yellowPaper, BitVec.shiftLeft_eq_zero h]
  rfl

theorem YellowPaper.shr_of_le {s x : U256} (h : 256 ≤ s.toNat) : YellowPaper.shr s x = 0 := by
  rw [← ushiftRight_eq_yellowPaper, BitVec.ushiftRight_eq_zero h]
  rfl

theorem YellowPaper.sar_of_le {s x : U256} (h : 256 ≤ s.toNat) :
    YellowPaper.sar s x = if x.getLsbD 255 then BitVec.allOnes 256 else 0 := by
  rw [← sshiftRight_eq_yellowPaper, sshiftRight_of_le h]

/-! ## Each handler is the generic handler over the Yellow Paper function -/

namespace CallFrame

theorem opAdd_eq :
    opAdd = binaryOpcode (ArithmeticOpcode.staticGas .add) fun a b => pure (YellowPaper.add a b) := rfl

theorem opSub_eq :
    opSub = binaryOpcode (ArithmeticOpcode.staticGas .sub) fun a b => pure (YellowPaper.sub a b) := by
  unfold opSub
  simp only [sub_eq_yellowPaper]

theorem opMul_eq :
    opMul = binaryOpcode (ArithmeticOpcode.staticGas .mul) fun a b => pure (YellowPaper.mul a b) := by
  unfold opMul
  simp only [mul_eq_yellowPaper]

theorem opDiv_eq :
    opDiv = binaryOpcode (ArithmeticOpcode.staticGas .div) fun a b => pure (YellowPaper.div a b) := by
  unfold opDiv
  congr 1
  funext dividend divisor
  by_cases hb : divisor = 0
  · rw [YellowPaper.div, if_pos hb, checkedDiv, if_pos hb]
  · have hlt : dividend.toNat / divisor.toNat < 2 ^ 256 :=
      Nat.lt_of_le_of_lt (Nat.div_le_self _ _) dividend.isLt
    rw [YellowPaper.div, if_neg hb, checkedDiv_of_ne_zero hb]
    apply congrArg Except.ok
    apply BitVec.eq_of_toNat_eq
    rw [BitVec.toNat_udiv, BitVec.toNat_ofNat, Nat.mod_eq_of_lt hlt]

theorem opSdiv_eq :
    opSdiv = binaryOpcode (ArithmeticOpcode.staticGas .sdiv) fun a b => pure (YellowPaper.sdiv a b) := by
  unfold opSdiv
  congr 1
  funext dividend divisor
  by_cases hb : divisor = 0
  · rw [YellowPaper.sdiv, if_pos hb, if_pos (Or.inl hb)]
  · by_cases ha : dividend = 0
    · subst ha
      rw [YellowPaper.sdiv, if_neg hb, if_pos (Or.inr rfl)]
      simp
    · have habs : abs divisor ≠ 0 := by
        rw [abs_eq_magnitude]
        exact TwosComplement.magnitude_ne_zero hb
      rw [YellowPaper.sdiv, if_neg hb, if_neg (by tauto)]
      dsimp only
      rw [checkedDiv_of_ne_zero habs, ← TwosComplement.sdiv_eq_ofInt_tdiv,
        TwosComplement.sdiv_eq_magnitude, abs_eq_magnitude, abs_eq_magnitude, isNegative_eq_msb,
        isNegative_eq_msb]
      dsimp only
      rw [negate_eq_neg]

theorem opMod_eq :
    opMod = binaryOpcode (ArithmeticOpcode.staticGas .mod) fun a b => pure (YellowPaper.mod a b) := by
  unfold opMod
  congr 1
  funext dividend divisor
  by_cases hb : divisor = 0
  · rw [YellowPaper.mod, if_pos hb, checkedRem, if_pos hb]
    rfl
  · have hlt : dividend.toNat % divisor.toNat < 2 ^ 256 :=
      Nat.lt_of_le_of_lt (Nat.mod_le _ _) dividend.isLt
    rw [YellowPaper.mod, if_neg hb, checkedRem_of_ne_zero hb]
    apply congrArg Except.ok
    apply BitVec.eq_of_toNat_eq
    rw [Option.getD_some, BitVec.toNat_umod, BitVec.toNat_ofNat, Nat.mod_eq_of_lt hlt]

theorem opSmod_eq :
    opSmod = binaryOpcode (ArithmeticOpcode.staticGas .smod) fun a b => pure (YellowPaper.smod a b) := by
  unfold opSmod
  congr 1
  funext dividend divisor
  by_cases hb : divisor = 0
  · rw [YellowPaper.smod, if_pos hb, if_pos (Or.inl hb)]
  · by_cases ha : dividend = 0
    · subst ha
      rw [YellowPaper.smod, if_neg hb, if_pos (Or.inr rfl)]
      simp
    · have habs : abs divisor ≠ 0 := by
        rw [abs_eq_magnitude]
        exact TwosComplement.magnitude_ne_zero hb
      rw [YellowPaper.smod, if_neg hb, if_neg (by tauto)]
      dsimp only
      rw [checkedRem_of_ne_zero habs, ← TwosComplement.srem_eq_ofInt_tmod,
        TwosComplement.srem_eq_magnitude, abs_eq_magnitude, abs_eq_magnitude, isNegative_eq_msb]
      dsimp only
      rw [negate_eq_neg]

theorem opAddmod_eq :
    opAddmod = ternaryOpcode (ArithmeticOpcode.staticGas .addmod) fun a b n =>
      pure (YellowPaper.addmod a b n) := by
  unfold opAddmod
  congr 1
  funext augend addend modulus
  by_cases hn : modulus = 0
  · rw [YellowPaper.addmod, if_pos hn, if_pos hn]
  · -- the sum of two words fits `U512`, and its remainder fits a word
    have hsum : augend.toNat + addend.toNat < 2 ^ 512 := by
      have := augend.isLt
      have := addend.isLt
      omega
    have hpos := toNat_pos_of_ne_zero hn
    have hmod : (augend.toNat + addend.toNat) % modulus.toNat < 2 ^ 256 :=
      Nat.lt_trans (Nat.mod_lt _ hpos) modulus.isLt
    rw [YellowPaper.addmod, if_neg hn, if_neg hn, add_of_lt hsum, Option.okOr_some, Except.ok_bind,
      rem_of_ne_zero (by omega), Option.okOr_some, Except.ok_bind, tryIntoU256, if_pos hmod]
    rfl

theorem opMulmod_eq :
    opMulmod = ternaryOpcode (ArithmeticOpcode.staticGas .mulmod) fun a b n =>
      pure (YellowPaper.mulmod a b n) := by
  unfold opMulmod
  congr 1
  funext multiplicand multiplier modulus
  by_cases hzero : modulus = 0 ∨ multiplicand = 0 ∨ multiplier = 0
  · -- a zero operand: the handler's shortcut agrees with the product
    rw [if_pos hzero, YellowPaper.mulmod]
    rcases hzero with hn | ha | hb
    · rw [if_pos hn]
    · subst ha
      split <;> simp
    · subst hb
      split <;> simp
  · have hn : modulus ≠ 0 := fun h => hzero (.inl h)
    have hproduct : multiplicand.toNat * multiplier.toNat < 2 ^ 512 := by
      rw [show (512 : Nat) = 256 + 256 from rfl, Nat.pow_add]
      exact Nat.mul_lt_mul'' multiplicand.isLt multiplier.isLt
    have hpos := toNat_pos_of_ne_zero hn
    have hmod : (multiplicand.toNat * multiplier.toNat) % modulus.toNat < 2 ^ 256 :=
      Nat.lt_trans (Nat.mod_lt _ hpos) modulus.isLt
    rw [YellowPaper.mulmod, if_neg hn, if_neg hzero, mul_of_lt hproduct, Option.okOr_some,
      Except.ok_bind, rem_of_ne_zero (by omega), Option.okOr_some, Except.ok_bind, tryIntoU256,
      if_pos hmod]
    rfl

theorem opLt_eq :
    opLt = binaryOpcode (ArithmeticOpcode.staticGas .lt) fun a b => pure (YellowPaper.lt a b) := by
  unfold opLt
  congr 1
  funext lho rho
  by_cases h : lho.toNat < rho.toNat <;> simp [u256FromBool, YellowPaper.lt, BitVec.lt_def, h]

theorem opGt_eq :
    opGt = binaryOpcode (ArithmeticOpcode.staticGas .gt) fun a b => pure (YellowPaper.gt a b) := by
  unfold opGt
  congr 1
  funext lho rho
  by_cases h : rho.toNat < lho.toNat <;> simp [u256FromBool, YellowPaper.gt, BitVec.lt_def, h]

theorem u256FromBool_slt (lho rho : U256) :
    (if lho.getLsbD 255 = rho.getLsbD 255 then u256FromBool (lho < rho)
      else u256FromBool (lho.getLsbD 255)) = YellowPaper.slt lho rho := by
  have h := TwosComplement.slt_eq_msb_cond lho rho
  rw [BitVec.slt, BitVec.ult] at h
  rw [getLsbD_255_eq_msb, getLsbD_255_eq_msb, YellowPaper.slt]
  by_cases hlt : lho.toInt < rho.toInt
  · rw [if_pos hlt]
    split <;> simp_all [u256FromBool, BitVec.lt_def]
  · rw [if_neg hlt]
    split <;> simp_all [u256FromBool, BitVec.lt_def]

theorem opSgt_eq :
    opSgt = binaryOpcode (ArithmeticOpcode.staticGas .sgt) fun a b => pure (YellowPaper.sgt a b) := by
  unfold opSgt
  congr 1
  funext lho rho
  -- `SGT` is `SLT` with the operands swapped
  rw [show YellowPaper.sgt lho rho = YellowPaper.slt rho lho from rfl, ← u256FromBool_slt]
  dsimp only
  by_cases h : lho.getLsbD 255 = rho.getLsbD 255
  · rw [if_pos h, if_pos h.symm]
  · rw [if_neg h, if_neg (Ne.symm h)]

theorem opEq_eq :
    opEq = binaryOpcode (ArithmeticOpcode.staticGas .eq) fun a b => pure (YellowPaper.eq a b) := by
  unfold opEq
  congr 1
  funext lho rho
  by_cases h : lho = rho <;> simp [u256FromBool, YellowPaper.eq, h]

theorem opIszero_eq :
    opIszero = unaryOpcode (ArithmeticOpcode.staticGas .iszero) YellowPaper.iszero := by
  unfold opIszero
  congr 1
  funext operand
  by_cases h : operand = 0 <;> simp [u256FromBool, YellowPaper.iszero, h]

theorem opByte_eq :
    opByte = binaryOpcode (ArithmeticOpcode.staticGas .byte) fun i x => pure (YellowPaper.byte i x) := by
  unfold opByte
  congr 1
  funext op1 op2
  by_cases hw : op1.toNat < 2 ^ 64
  · rw [show toUsize op1.toNat = some op1.toNat from if_pos hw]
    dsimp only
    by_cases hi : op1.toNat < wordSize
    · -- byte `i` from the top is byte `31 - i` from the bottom
      have hi32 : op1.toNat < 32 := hi
      rw [if_pos hi, sub_of_le (by omega), Option.okOr_some, Except.ok_bind,
        sub_of_le (by omega), Option.okOr_some, Except.ok_bind, YellowPaper.byte, if_pos hi32,
        show wordSize - op1.toNat - 1 = 31 - op1.toNat by unfold wordSize; omega]
      have hbyte : (byte op2 (31 - op1.toNat)).toNat = op2.toNat / 2 ^ (8 * (31 - op1.toNat)) % 2 ^ 8 := by
        simp [byte]
      apply congrArg Except.ok
      apply BitVec.eq_of_toNat_eq
      rw [BitVec.toNat_ofNat, BitVec.toNat_ofNat, hbyte]
    · have hi32 : ¬ op1.toNat < 32 := hi
      rw [if_neg hi, YellowPaper.byte, if_neg hi32]
  · rw [show toUsize op1.toNat = none from if_neg hw, YellowPaper.byte, if_neg (by omega)]

theorem opShl_eq :
    opShl = binaryOpcode (ArithmeticOpcode.staticGas .shl) fun s x => pure (YellowPaper.shl s x) := by
  unfold opShl
  congr 1
  funext shift value
  by_cases h : shift < 256
  · rw [if_pos h, checkedShiftLeft_eq, shiftLeft_eq_yellowPaper]
    rfl
  · rw [if_neg h, YellowPaper.shl_of_le (le_toNat_of_not_lt_256 h)]

theorem opShr_eq :
    opShr = binaryOpcode (ArithmeticOpcode.staticGas .shr) fun s x => pure (YellowPaper.shr s x) := by
  unfold opShr
  congr 1
  funext shift value
  by_cases h : shift < 256
  · rw [if_pos h, checkedShiftRight_eq, ushiftRight_eq_yellowPaper]
    rfl
  · rw [if_neg h, YellowPaper.shr_of_le (le_toNat_of_not_lt_256 h)]

theorem opSar_eq :
    opSar = binaryOpcode (ArithmeticOpcode.staticGas .sar) fun s x => pure (YellowPaper.sar s x) := by
  unfold opSar
  congr 1
  funext shift value
  by_cases h : shift < 256
  · rw [if_pos h, arithmeticShiftRight_eq (Nat.le_of_lt ((lt_256_iff shift).mp h)),
      sshiftRight_eq_yellowPaper]
    rfl
  · rw [if_neg h, YellowPaper.sar_of_le (le_toNat_of_not_lt_256 h)]
    split <;> rfl

theorem opSignextend_eq :
    opSignextend = binaryOpcode (ArithmeticOpcode.staticGas .signextend) fun b x =>
      pure (YellowPaper.signextend b x) := by
  unfold opSignextend
  congr 1
  funext byteSizeMinusOne valueToExtend
  by_cases hbig : byteSizeMinusOne > 31
  · have hge : ¬ byteSizeMinusOne.toNat < 31 := by
      rw [gt_iff_lt, BitVec.lt_def] at hbig
      exact fun h => absurd hbig (by simp; omega)
    rw [if_pos hbig, YellowPaper.signextend, if_neg hge]
  · have hle : byteSizeMinusOne.toNat ≤ 31 := by
      rw [gt_iff_lt, BitVec.lt_def] at hbig
      simpa using hbig
    -- the sign bit is bit `k = 8 b + 7`, below 256
    have hk : 8 * byteSizeMinusOne.toNat + 7 < 256 := by omega
    have hindex : ((mul 256 (8 : U256).toNat byteSizeMinusOne.toNat).bind fun totalBits =>
        add 256 totalBits (7 : U256).toNat) = some (8 * byteSizeMinusOne.toNat + 7) := by
      rw [show (8 : U256).toNat = 8 from rfl, show (7 : U256).toNat = 7 from rfl,
        mul_of_lt (by omega), Option.bind_some, add_of_lt (by omega)]
    have hofNat : (BitVec.ofNat 256 (8 * byteSizeMinusOne.toNat + 7)).toNat =
        8 * byteSizeMinusOne.toNat + 7 := by
      rw [BitVec.toNat_ofNat]
      omega
    have hone : ((1 : U256) <<< (8 * byteSizeMinusOne.toNat + 7)).toNat =
        2 ^ (8 * byteSizeMinusOne.toNat + 7) := by
      rw [BitVec.toNat_shiftLeft, show (1 : U256).toNat = 1 from rfl, Nat.one_shiftLeft]
      exact Nat.mod_eq_of_lt (Nat.pow_lt_pow_right (by decide) hk)
    rw [if_neg hbig]
    dsimp only
    rw [hindex, Option.okOr_some, Except.ok_bind, checkedShiftRight_eq, Except.ok_bind,
      checkedShiftLeft_eq, Except.ok_bind, hofNat, hone, sub_of_le Nat.one_le_two_pow,
      Option.okOr_some, Except.ok_bind, ← TwosComplement.lowMask_eq_ofNat hk,
      TwosComplement.ushiftRight_and_one]
    -- up to bit 255 the Yellow Paper's extension is the handler's
    have hext : YellowPaper.signextend byteSizeMinusOne valueToExtend =
        (valueToExtend.setWidth (8 * byteSizeMinusOne.toNat + 7 + 1)).signExtend 256 := by
      unfold YellowPaper.signextend
      split
      · rfl
      · have h31 : byteSizeMinusOne.toNat = 31 := by omega
        rw [h31]
        simp
    rw [hext, TwosComplement.signExtend_setWidth_succ _ hk]
    cases valueToExtend.getLsbD (8 * byteSizeMinusOne.toNat + 7) <;> rfl

theorem opSlt_eq :
    opSlt = binaryOpcode (ArithmeticOpcode.staticGas .slt) fun a b => pure (YellowPaper.slt a b) := by
  unfold opSlt
  simp only [u256FromBool_slt]

/-! ## The generic handlers on a stack with their operands -/

section Generic

variable {frame : CallFrame} {gasCost : Nat} {rest : List U256}

theorem unaryOpcode_eq {f : U256 → U256} {a : U256} (hstack : frame.stack.stack = a :: rest)
    (hlimit : frame.stack.stack.length ≤ stackLimit) (hgas : frame.gasUsed + gasCost ≤ frame.gasLimit)
    (hwidth : frame.gasLimit < 2 ^ 64) :
    unaryOpcode gasCost f frame =
      .ok { frame with gasUsed := frame.gasUsed + gasCost, stack := ⟨f a :: rest⟩ } := by
  have hpop : frame.stack.pop = .ok (a, ⟨rest⟩) := Stack.pop_eq_ok.mpr hstack
  have hroom : rest.length < stackLimit := by
    rw [hstack, List.length_cons] at hlimit
    omega
  rw [unaryOpcode, increaseConsumedGas_of_le hgas hwidth, Except.ok_bind]
  dsimp only
  rw [hpop, Except.ok_bind]
  dsimp only
  rw [Stack.push_of_lt (f a) hroom, Except.ok_bind]
  rfl

theorem binaryOpcode_eq {f : U256 → U256 → Except VMError U256} {a b r : U256}
    (hstack : frame.stack.stack = a :: b :: rest) (hlimit : frame.stack.stack.length ≤ stackLimit)
    (hgas : frame.gasUsed + gasCost ≤ frame.gasLimit) (hwidth : frame.gasLimit < 2 ^ 64)
    (hf : f a b = .ok r) :
    binaryOpcode gasCost f frame =
      .ok { frame with gasUsed := frame.gasUsed + gasCost, stack := ⟨r :: rest⟩ } := by
  have hpop : frame.stack.pop = .ok (a, ⟨b :: rest⟩) := Stack.pop_eq_ok.mpr hstack
  have hroom : rest.length < stackLimit := by
    rw [hstack, List.length_cons, List.length_cons] at hlimit
    omega
  rw [binaryOpcode, increaseConsumedGas_of_le hgas hwidth, Except.ok_bind]
  dsimp only
  rw [hpop, Except.ok_bind]
  dsimp only
  rw [Stack.pop_cons, Except.ok_bind]
  dsimp only
  rw [hf, Except.ok_bind, Stack.push_of_lt r hroom, Except.ok_bind]
  rfl

theorem ternaryOpcode_eq {f : U256 → U256 → U256 → Except VMError U256} {a b c r : U256}
    (hstack : frame.stack.stack = a :: b :: c :: rest) (hlimit : frame.stack.stack.length ≤ stackLimit)
    (hgas : frame.gasUsed + gasCost ≤ frame.gasLimit) (hwidth : frame.gasLimit < 2 ^ 64)
    (hf : f a b c = .ok r) :
    ternaryOpcode gasCost f frame =
      .ok { frame with gasUsed := frame.gasUsed + gasCost, stack := ⟨r :: rest⟩ } := by
  have hpop : frame.stack.pop = .ok (a, ⟨b :: c :: rest⟩) := Stack.pop_eq_ok.mpr hstack
  have hroom : rest.length < stackLimit := by
    rw [hstack, List.length_cons, List.length_cons, List.length_cons] at hlimit
    omega
  rw [ternaryOpcode, increaseConsumedGas_of_le hgas hwidth, Except.ok_bind]
  dsimp only
  rw [hpop, Except.ok_bind]
  dsimp only
  rw [Stack.pop_cons, Except.ok_bind]
  dsimp only
  rw [Stack.pop_cons, Except.ok_bind]
  dsimp only
  rw [hf, Except.ok_bind, Stack.push_of_lt r hroom, Except.ok_bind]
  rfl

theorem opExp_eq {base exponent : U256} (hstack : frame.stack.stack = base :: exponent :: rest)
    (hlimit : frame.stack.stack.length ≤ stackLimit)
    (hgas : frame.gasUsed + ArithmeticOpcode.gasCost .exp [base, exponent] ≤ frame.gasLimit)
    (hwidth : frame.gasLimit < 2 ^ 64) :
    opExp frame = .ok
      { frame with
        gasUsed := frame.gasUsed + ArithmeticOpcode.gasCost .exp [base, exponent]
        stack := ⟨YellowPaper.exp base exponent :: rest⟩ } := by
  have hpop : frame.stack.pop = .ok (base, ⟨exponent :: rest⟩) := Stack.pop_eq_ok.mpr hstack
  have hroom : rest.length < stackLimit := by
    rw [hstack, List.length_cons, List.length_cons] at hlimit
    omega
  rw [opExp, hpop, Except.ok_bind]
  dsimp only
  rw [Stack.pop_cons, Except.ok_bind]
  dsimp only
  have hcharge : ({ frame with stack := ⟨rest⟩ } : CallFrame).increaseConsumedGas
      (expStatic + expDynamicBase * ((bits exponent + 7) / 8)) =
      .ok { frame with stack := ⟨rest⟩, gasUsed := frame.gasUsed + ArithmeticOpcode.gasCost .exp [base, exponent] } :=
    increaseConsumedGas_of_le hgas hwidth
  rw [GasCost.exp_eq, Except.ok_bind, hcharge, Except.ok_bind]
  dsimp only
  rw [Stack.push_of_lt _ hroom, Except.ok_bind, pow_eq_yellowPaper]
  rfl

end Generic

/-- Every handler of one operand is the generic one over its Yellow Paper
function. -/
theorem executeArithmeticOpcode_unary (frame : CallFrame) :
    ∀ op : ArithmeticOpcode, op.arity = 1 →
      frame.executeArithmeticOpcode op = unaryOpcode op.staticGas (fun a => op.yellowPaper [a]) frame
  | .iszero, _ => congrFun opIszero_eq frame
  | .not, _ => rfl
  | .add, h | .mul, h | .sub, h | .div, h | .sdiv, h | .mod, h | .smod, h | .addmod, h | .mulmod, h
  | .exp, h | .signextend, h | .lt, h | .gt, h | .slt, h | .sgt, h | .eq, h | .and, h | .or, h
  | .xor, h | .byte, h | .shl, h | .shr, h | .sar, h => absurd h (by decide)

/-- Every handler of two operands but `EXP` is the generic one over its
Yellow Paper function. -/
theorem executeArithmeticOpcode_binary (frame : CallFrame) :
    ∀ op : ArithmeticOpcode, op.arity = 2 → op ≠ .exp →
      frame.executeArithmeticOpcode op =
        binaryOpcode op.staticGas (fun a b => pure (op.yellowPaper [a, b])) frame
  | .add, _, _ => congrFun opAdd_eq frame
  | .mul, _, _ => congrFun opMul_eq frame
  | .sub, _, _ => congrFun opSub_eq frame
  | .div, _, _ => congrFun opDiv_eq frame
  | .sdiv, _, _ => congrFun opSdiv_eq frame
  | .mod, _, _ => congrFun opMod_eq frame
  | .smod, _, _ => congrFun opSmod_eq frame
  | .signextend, _, _ => congrFun opSignextend_eq frame
  | .lt, _, _ => congrFun opLt_eq frame
  | .gt, _, _ => congrFun opGt_eq frame
  | .slt, _, _ => congrFun opSlt_eq frame
  | .sgt, _, _ => congrFun opSgt_eq frame
  | .eq, _, _ => congrFun opEq_eq frame
  | .and, _, _ => rfl
  | .or, _, _ => rfl
  | .xor, _, _ => rfl
  | .byte, _, _ => congrFun opByte_eq frame
  | .shl, _, _ => congrFun opShl_eq frame
  | .shr, _, _ => congrFun opShr_eq frame
  | .sar, _, _ => congrFun opSar_eq frame
  | .exp, _, h => absurd rfl h
  | .iszero, h, _ | .not, h, _ | .addmod, h, _ | .mulmod, h, _ => absurd h (by decide)

/-- Every handler of three operands is the generic one over its Yellow
Paper function. -/
theorem executeArithmeticOpcode_ternary (frame : CallFrame) :
    ∀ op : ArithmeticOpcode, op.arity = 3 →
      frame.executeArithmeticOpcode op =
        ternaryOpcode op.staticGas (fun a b c => pure (op.yellowPaper [a, b, c])) frame
  | .addmod, _ => congrFun opAddmod_eq frame
  | .mulmod, _ => congrFun opMulmod_eq frame
  | .add, h | .mul, h | .sub, h | .div, h | .sdiv, h | .mod, h | .smod, h | .exp, h
  | .signextend, h | .lt, h | .gt, h | .slt, h | .sgt, h | .eq, h | .iszero, h | .and, h | .or, h
  | .xor, h | .not, h | .byte, h | .shl, h | .shr, h | .sar, h => absurd h (by decide)

/-- **The arithmetic, comparison and bitwise opcodes compute the Yellow
Paper's functions**: on a stack that holds an opcode's operands, with gas
for its charge, the opcode pops exactly its operands and pushes the Yellow
Paper's value of them. -/
theorem arithmetic_opcodes_yellow_paper (op : ArithmeticOpcode) (frame : CallFrame)
    (operands rest : List U256) (hoperands : operands.length = op.arity)
    (hstack : frame.stack.stack = operands ++ rest) (hlimit : frame.stack.stack.length ≤ stackLimit)
    (hgas : frame.gasUsed + op.gasCost operands ≤ frame.gasLimit) (hwidth : frame.gasLimit < 2 ^ 64) :
    frame.executeArithmeticOpcode op = .ok
      { frame with
        gasUsed := frame.gasUsed + op.gasCost operands
        stack := ⟨op.yellowPaper operands :: rest⟩ } := by
  by_cases hexp : op = .exp
  · -- `EXP` charges by its exponent, after the pops
    subst hexp
    obtain ⟨base, exponent, rfl⟩ := List.length_eq_two.mp hoperands
    exact opExp_eq hstack hlimit hgas hwidth
  · rw [ArithmeticOpcode.gasCost_of_ne_exp hexp] at hgas ⊢
    rcases op.arity_cases with h1 | h2 | h3
    · obtain ⟨a, rfl⟩ := List.length_eq_one_iff.mp (hoperands.trans h1)
      rw [executeArithmeticOpcode_unary frame op h1]
      exact unaryOpcode_eq hstack hlimit hgas hwidth
    · obtain ⟨a, b, rfl⟩ := List.length_eq_two.mp (hoperands.trans h2)
      rw [executeArithmeticOpcode_binary frame op h2 hexp]
      exact binaryOpcode_eq hstack hlimit hgas hwidth rfl
    · obtain ⟨a, b, c, rfl⟩ := List.length_eq_three.mp (hoperands.trans h3)
      rw [executeArithmeticOpcode_ternary frame op h3]
      exact ternaryOpcode_eq hstack hlimit hgas hwidth rfl

end CallFrame

/-- A frame about to run `SDIV` of the most negative word by `-1`. -/
def sdivIntMinFrame : CallFrame :=
  { gasLimit := 100, gasUsed := 0, msgSender := .replicate 20 0, toAddress := .replicate 20 0,
    stack := ⟨[BitVec.intMin 256, -1]⟩, memory := [], isStatic := false }

theorem arithmetic_opcodes_yellow_paper_sdivIntMin :
    sdivIntMinFrame.executeArithmeticOpcode .sdiv = .ok
      { sdivIntMinFrame with
        gasUsed := sdivIntMinFrame.gasUsed + ArithmeticOpcode.gasCost .sdiv [BitVec.intMin 256, -1]
        stack := ⟨ArithmeticOpcode.yellowPaper .sdiv [BitVec.intMin 256, -1] :: []⟩ } ∧
    ArithmeticOpcode.yellowPaper .sdiv [BitVec.intMin 256, -1] = BitVec.intMin 256 :=
  ⟨CallFrame.arithmetic_opcodes_yellow_paper .sdiv sdivIntMinFrame [BitVec.intMin 256, -1] [] rfl rfl
    (by decide) (by decide) (by decide), by decide⟩

end Ethrex.Levm
