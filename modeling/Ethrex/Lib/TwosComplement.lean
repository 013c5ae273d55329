/-
# `Ethrex.Lib.TwosComplement` — signed word operations through unsigned ones

A machine without signed instructions computes the signed operations on a
`w`-bit two's-complement word from unsigned ones: divide the magnitudes and
negate back when the signs call for it; shift right and set the vacated
bits when the word is negative; sign-extend with the mask of the bits below
the sign bit; compare signs first and magnitudes after.  Each lemma here
says that one such recipe is Lean's signed operation on `BitVec w`
(`sdiv`, `srem`, `sshiftRight`, `signExtend`, `slt`), at every width, and
the first two are also stated as the integer operations they round like.
-/
import Mathlib.Data.BitVec

namespace TwosComplement

variable {w : Nat}

/-- The magnitude of a word read as a two's-complement number; the most
negative word is its own magnitude. -/
def magnitude (x : BitVec w) : BitVec w := if x.msb then -x else x

theorem magnitude_ne_zero {x : BitVec w} (h : x ≠ 0) : magnitude x ≠ 0 := by
  unfold magnitude
  split
  · intro hneg
    exact h (BitVec.neg_eq_zero_iff.mp hneg)
  · exact h

/-! ## Division and remainder by magnitudes -/

/-- Signed division is the quotient of the magnitudes, negated when exactly
one operand is negative. -/
theorem sdiv_eq_magnitude (x y : BitVec w) :
    x.sdiv y = if x.msb ^^ y.msb then -(magnitude x / magnitude y) else magnitude x / magnitude y := by
  unfold magnitude
  rw [BitVec.sdiv_eq]
  cases x.msb <;> cases y.msb <;> rfl

/-- The signed remainder is the remainder of the magnitudes with the sign of
the dividend. -/
theorem srem_eq_magnitude (x y : BitVec w) :
    x.srem y = if x.msb then -(magnitude x % magnitude y) else magnitude x % magnitude y := by
  unfold magnitude BitVec.srem
  cases x.msb <;> cases y.msb <;> rfl

theorem sdiv_eq_ofInt_tdiv (x y : BitVec w) : x.sdiv y = BitVec.ofInt w (x.toInt.tdiv y.toInt) := by
  apply BitVec.eq_of_toInt_eq
  rw [BitVec.toInt_sdiv, BitVec.toInt_ofInt]

theorem srem_eq_ofInt_tmod (x y : BitVec w) : x.srem y = BitVec.ofInt w (x.toInt.tmod y.toInt) := by
  rw [← BitVec.toInt_srem, BitVec.ofInt_toInt]

/-! ## Shifts and sign extension by masks -/

theorem sshiftRight_of_msb {x : BitVec w} (hx : x.msb = true) (s : Nat) :
    x.sshiftRight s = x >>> s ||| BitVec.allOnes w <<< (w - s) := by
  apply BitVec.eq_of_getLsbD_eq
  intro i hi
  rw [BitVec.getLsbD_sshiftRight, BitVec.getLsbD_or, BitVec.getLsbD_ushiftRight,
    BitVec.getLsbD_shiftLeft, BitVec.getLsbD_allOnes, hx]
  -- bit `i` comes from bit `s + i` while that is inside the word
  by_cases h : s + i < w
  · have hi' : ¬ w ≤ i := by omega
    have hfill : i < w - s := by omega
    simp [h, hi', hfill]
  · have hi' : ¬ w ≤ i := by omega
    have hfill : ¬ i < w - s := by omega
    have hlow : i - (w - s) < w := by omega
    simp [h, hi, hi', hfill, hlow, BitVec.getLsbD_of_ge x (s + i) (by omega)]

theorem lowMask_eq_ofNat {k : Nat} (hk : k < w) :
    ((1 : BitVec w) <<< k) - 1 = BitVec.ofNat w (2 ^ k - 1) := by
  have hpow : 2 ^ k < 2 ^ w := Nat.pow_lt_pow_right (by decide) hk
  apply BitVec.eq_of_toNat_eq
  have hone : (1 : BitVec w).toNat = 1 := by
    show (1#w).toNat = 1
    rw [BitVec.toNat_ofNat]
    exact Nat.mod_eq_of_lt (Nat.one_lt_two_pow (by omega))
  have hk1 : 1 ≤ 2 ^ k := Nat.one_le_two_pow
  rw [BitVec.toNat_sub, BitVec.toNat_shiftLeft, BitVec.toNat_ofNat, hone,
    Nat.one_shiftLeft, Nat.mod_eq_of_lt hpow, show 2 ^ w - 1 + 2 ^ k = 2 ^ k - 1 + 2 ^ w by omega,
    Nat.add_mod_right]

theorem getLsbD_lowMask {k : Nat} (hk : k < w) (i : Nat) :
    (((1 : BitVec w) <<< k) - 1).getLsbD i = (decide (i < w) && decide (i < k)) := by
  rw [lowMask_eq_ofNat hk, BitVec.getLsbD_ofNat, Nat.testBit_two_pow_sub_one]

theorem ushiftRight_and_one (x : BitVec w) (i : Nat) :
    x >>> i &&& 1 = if x.getLsbD i then 1 else 0 := by
  apply BitVec.eq_of_getLsbD_eq
  intro j hj
  rw [BitVec.getLsbD_and, BitVec.getLsbD_ushiftRight, show (1 : BitVec w) = 1#w from rfl,
    BitVec.getLsbD_one]
  by_cases h0 : j = 0
  · subst h0
    cases x.getLsbD i <;> simp [hj]
  · cases x.getLsbD i <;> simp [h0]

/-- Sign extension from bit `k`: clear the bits above it when it is clear,
set them when it is set. -/
theorem signExtend_setWidth_succ (x : BitVec w) {k : Nat} (hk : k < w) :
    (x.setWidth (k + 1)).signExtend w =
      if x.getLsbD k then x ||| ~~~(((1 : BitVec w) <<< k) - 1)
      else x &&& (((1 : BitVec w) <<< k) - 1) := by
  apply BitVec.eq_of_getLsbD_eq
  intro i hi
  rw [BitVec.getLsbD_signExtend, BitVec.msb_setWidth'', BitVec.getLsbD_setWidth]
  -- below the sign bit, at it, and above it
  by_cases hlow : i < k
  · have hik : i < k + 1 := by omega
    cases x.getLsbD k
    · rw [if_neg (show ¬ (false = true) by simp), BitVec.getLsbD_and, getLsbD_lowMask hk]
      simp [hi, hik, hlow]
    · rw [if_pos (show true = true from rfl), BitVec.getLsbD_or, BitVec.getLsbD_not, getLsbD_lowMask hk]
      simp [hi, hik, hlow]
  · by_cases hsign : i = k
    · subst hsign
      cases x.getLsbD i
      · rw [if_neg (show ¬ (false = true) by simp), BitVec.getLsbD_and, getLsbD_lowMask hk]
        simp [hi]
      · rw [if_pos (show true = true from rfl), BitVec.getLsbD_or, BitVec.getLsbD_not, getLsbD_lowMask hk]
        simp [hi]
    · have hik : ¬ i < k + 1 := by omega
      cases x.getLsbD k
      · rw [if_neg (show ¬ (false = true) by simp), BitVec.getLsbD_and, getLsbD_lowMask hk]
        simp [hi, hik, hlow]
      · rw [if_pos (show true = true from rfl), BitVec.getLsbD_or, BitVec.getLsbD_not, getLsbD_lowMask hk]
        simp [hi, hik, hlow]

/-! ## Comparison -/

theorem slt_eq_msb_cond (x y : BitVec w) :
    x.slt y = if x.msb = y.msb then x.ult y else x.msb := by
  by_cases h : x.msb = y.msb
  · rw [if_pos h, BitVec.slt_eq_ult_of_msb_eq h]
  · rw [if_neg h, BitVec.slt_eq_not_ult_of_msb_neq h, BitVec.ult_eq_msb_of_msb_neq h]
    cases hx : x.msb <;> cases hy : y.msb <;> simp_all

end TwosComplement
