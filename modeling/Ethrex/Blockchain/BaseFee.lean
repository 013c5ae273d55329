/-
# `Ethrex.Blockchain.BaseFee` — `calculate_base_fee_per_gas` against EIP-1559

EIP-1559 sets a block's base fee from its parent's: above the target
(`gas_limit / 2`) it rises by `base_fee * (gas_used - target) / target / 8`,
at least 1; below it, it falls by `base_fee * (target - gas_used) / target / 8`.
`eip1559BaseFee` is that formula over unbounded integers.

`calculate_base_fee_per_gas` computes it in `u64` and multiplies before it
divides; `wrappedBaseFee` is what it computes, read on `Nat`
(`calculateBaseFeePerGas_toNat`).  While the product `base_fee * delta`
fits, the two agree (`calculateBaseFeePerGas_of_lt`).  Once the product
overflows, the wrapped result is another number: too low above the target,
too high below it.  This holds for every parent whose target is at most
`2 ^ 60`, even where the formula's value fits easily
(`calculateBaseFeePerGas_of_overflow`).  Header validation compares each
header's base fee against this function, so the wrap decides which headers
are accepted.

`check_gas_limit` adds `parent_gas_limit / 1024` to the parent's limit in
`u64` as well.  `checkGasLimit_iff` is the unbounded check wherever that sum
fits.
-/
import Ethrex.Blockchain.AddBlock

namespace Ethrex.Blockchain

/-! ## The formula, unbounded and wrapped -/

/-- The EIP-1559 base fee over unbounded integers. -/
def eip1559BaseFee (parentGasLimit parentGasUsed parentBaseFee : Nat) : Nat :=
  let target := parentGasLimit / 2
  if parentGasUsed = target then parentBaseFee
  else if target < parentGasUsed then
    parentBaseFee + max (parentBaseFee * (parentGasUsed - target) / target / 8) 1
  else parentBaseFee - parentBaseFee * (target - parentGasUsed) / target / 8

/-- The same steps in `u64`: the product, the sum and the difference each
taken modulo `2 ^ 64`. -/
def wrappedBaseFee (parentGasLimit parentGasUsed parentBaseFee : Nat) : Nat :=
  let target := parentGasLimit / 2
  if parentGasUsed = target then parentBaseFee
  else if target < parentGasUsed then
    (parentBaseFee + max (parentBaseFee * (parentGasUsed - target) % 2 ^ 64 / target / 8) 1) %
      2 ^ 64
  else
    (2 ^ 64 - parentBaseFee * (target - parentGasUsed) % 2 ^ 64 / target / 8 + parentBaseFee) %
      2 ^ 64

/-! ## Arithmetic of the two -/

section Arithmetic

variable {L U f : Nat}

theorem div_add_two_le_of_overflow {c d : Nat} (hd : 0 < d) (hsmall : 2 * d ≤ 2 ^ 64)
    (hc : 2 ^ 64 ≤ c) : c % 2 ^ 64 / d + 2 ≤ c / d := by
  have hsplit : c % 2 ^ 64 + 2 ^ 64 * (c / 2 ^ 64) = c := Nat.mod_add_div c (2 ^ 64)
  have hq : 1 ≤ c / 2 ^ 64 := (Nat.le_div_iff_mul_le (by decide)).mpr (by omega)
  have hle : c % 2 ^ 64 + 2 * d ≤ c := by
    calc c % 2 ^ 64 + 2 * d ≤ c % 2 ^ 64 + 2 ^ 64 * 1 := by omega
      _ ≤ c % 2 ^ 64 + 2 ^ 64 * (c / 2 ^ 64) := Nat.add_le_add_left (Nat.mul_le_mul_left _ hq) _
      _ = c := hsplit
  calc c % 2 ^ 64 / d + 2 = (c % 2 ^ 64 + 2 * d) / d := (Nat.add_mul_div_right _ 2 hd).symm
    _ ≤ c / d := Nat.div_le_div_right hle

theorem decrease_le (hT : 0 < L / 2) : f * (L / 2 - U) / (L / 2) / 8 ≤ f := by
  have hprod : f * (L / 2 - U) ≤ f * (L / 2) := Nat.mul_le_mul_left _ (Nat.sub_le _ _)
  calc f * (L / 2 - U) / (L / 2) / 8 ≤ f * (L / 2 - U) / (L / 2) := Nat.div_le_self _ _
    _ ≤ f * (L / 2) / (L / 2) := Nat.div_le_div_right hprod
    _ = f := Nat.mul_div_cancel _ hT

theorem wrappedBaseFee_of_lt (hT : 0 < L / 2) (hf : f < 2 ^ 64)
    (hprod : f * (U - L / 2 + (L / 2 - U)) < 2 ^ 64) (hfits : eip1559BaseFee L U f < 2 ^ 64) :
    wrappedBaseFee L U f = eip1559BaseFee L U f := by
  unfold wrappedBaseFee
  unfold eip1559BaseFee at hfits ⊢
  dsimp only at hfits ⊢
  by_cases heq : U = L / 2
  · rw [if_pos heq, if_pos heq]
  rw [if_neg heq, if_neg heq] at *
  by_cases hlt : L / 2 < U
  · -- above the target: the product and the sum both fit
    rw [if_pos hlt] at hfits
    rw [if_pos hlt, if_pos hlt]
    have hmul : f * (U - L / 2) < 2 ^ 64 := by
      have hsum : U - L / 2 + (L / 2 - U) = U - L / 2 := by omega
      rwa [hsum] at hprod
    rw [Nat.mod_eq_of_lt hmul, Nat.mod_eq_of_lt hfits]
  · -- below it: the decrease is at most the base fee, so the difference does not wrap
    rw [if_neg hlt] at hfits
    rw [if_neg hlt, if_neg hlt]
    have hmul : f * (L / 2 - U) < 2 ^ 64 := by
      have hsum : U - L / 2 + (L / 2 - U) = L / 2 - U := by omega
      rwa [hsum] at hprod
    have hdec := decrease_le (U := U) (f := f) hT
    rw [Nat.mod_eq_of_lt hmul, show 2 ^ 64 - f * (L / 2 - U) / (L / 2) / 8 + f =
      f - f * (L / 2 - U) / (L / 2) / 8 + 2 ^ 64 by omega, Nat.add_mod_right,
      Nat.mod_eq_of_lt (by omega)]

theorem wrappedBaseFee_ne_of_overflow (hT : 0 < L / 2) (hf : f < 2 ^ 64) (hsmall : 8 * (L / 2) ≤ 2 ^ 63)
    (hprod : 2 ^ 64 ≤ f * (U - L / 2 + (L / 2 - U))) (hfits : eip1559BaseFee L U f < 2 ^ 64) :
    wrappedBaseFee L U f ≠ eip1559BaseFee L U f := by
  have hd : 0 < L / 2 * 8 := by omega
  have hd2 : 2 * (L / 2 * 8) ≤ 2 ^ 64 := by omega
  unfold wrappedBaseFee
  unfold eip1559BaseFee at hfits ⊢
  dsimp only at hfits ⊢
  by_cases heq : U = L / 2
  · subst heq
    simp at hprod
  rw [if_neg heq, if_neg heq] at *
  simp only [Nat.div_div_eq_div_mul] at hfits ⊢
  by_cases hlt : L / 2 < U
  · -- above the target the wrapped increase falls short of the formula's
    rw [if_pos hlt] at hfits
    rw [if_pos hlt, if_pos hlt]
    have hmul : 2 ^ 64 ≤ f * (U - L / 2) := by
      have hsum : U - L / 2 + (L / 2 - U) = U - L / 2 := by omega
      rwa [hsum] at hprod
    have hgap := div_add_two_le_of_overflow hd hd2 hmul
    have htwo : 2 ≤ f * (U - L / 2) / (L / 2 * 8) := le_trans (Nat.le_add_left _ _) hgap
    have hmax : max (f * (U - L / 2) / (L / 2 * 8)) 1 = f * (U - L / 2) / (L / 2 * 8) :=
      Nat.max_eq_left (le_trans (by decide) htwo)
    rw [hmax] at hfits ⊢
    rw [Nat.mod_eq_of_lt (by omega)]
    omega
  · -- below it the wrapped decrease falls short, so the fee stays higher
    rw [if_neg hlt] at hfits
    rw [if_neg hlt, if_neg hlt]
    have hmul : 2 ^ 64 ≤ f * (L / 2 - U) := by
      have hsum : U - L / 2 + (L / 2 - U) = L / 2 - U := by omega
      rwa [hsum] at hprod
    have hgap := div_add_two_le_of_overflow hd hd2 hmul
    have hdec : f * (L / 2 - U) / (L / 2 * 8) ≤ f := by
      rw [← Nat.div_div_eq_div_mul]
      exact decrease_le hT
    generalize f * (L / 2 - U) % 2 ^ 64 / (L / 2 * 8) = x at hgap ⊢
    generalize f * (L / 2 - U) / (L / 2 * 8) = y at hgap hdec ⊢
    rw [show 2 ^ 64 - x + f = f - x + 2 ^ 64 by omega, Nat.add_mod_right,
      Nat.mod_eq_of_lt (by omega)]
    omega

end Arithmetic

/-! ## The `u64` code -/

section Code

variable {G L U f : UInt64}

theorem target_pos_of_checkGasLimit (h : checkGasLimit G L = true) : 0 < L.toNat / 2 := by
  simp only [checkGasLimit, Bool.and_eq_true, decide_eq_true_eq] at h
  obtain ⟨⟨hup, hdown⟩, hmin⟩ := h
  have hmin' : 5000 ≤ G.toNat := UInt64.le_iff_toNat_le.mp hmin
  have hdown' := UInt64.lt_iff_toNat_lt.mp hdown
  have hup' := UInt64.lt_iff_toNat_lt.mp hup
  have hdiv : (L / gasLimitAdjustmentFactor).toNat = L.toNat / 1024 := UInt64.toNat_div _ _
  have hdivle : L.toNat / 1024 ≤ L.toNat := Nat.div_le_self _ _
  rw [UInt64.toNat_sub_of_le _ _ (UInt64.le_iff_toNat_le.mpr (by omega)), hdiv] at hdown'
  rw [UInt64.toNat_add, hdiv] at hup'
  have hL := UInt64.toNat_lt L
  -- with the sum wrapped or not, the parent's limit is far above 1
  by_cases hwrap : L.toNat + L.toNat / 1024 < 2 ^ 64
  · rw [Nat.mod_eq_of_lt hwrap] at hup'
    omega
  · omega

theorem calculateBaseFeePerGas_toNat (h : checkGasLimit G L = true) :
    (calculateBaseFeePerGas G L U f).map UInt64.toNat =
      some (wrappedBaseFee L.toNat U.toNat f.toNat) := by
  have hT : (L / elasticityMultiplier).toNat = L.toNat / 2 := UInt64.toNat_div _ _
  unfold calculateBaseFeePerGas wrappedBaseFee
  rw [h, Bool.not_true, if_neg Bool.false_ne_true, Option.map_some]
  dsimp only
  congr 1
  by_cases heq : U = L / elasticityMultiplier
  · rw [if_pos heq, if_pos (by rw [heq, hT])]
  have heq' : U.toNat ≠ L.toNat / 2 := fun hc => heq (UInt64.toNat_inj.mp (hc.trans hT.symm))
  rw [if_neg heq, if_neg heq']
  by_cases hlt : U > L / elasticityMultiplier
  · have hlt' : L.toNat / 2 < U.toNat := hT ▸ UInt64.lt_iff_toNat_lt.mp hlt
    rw [if_pos hlt, if_pos hlt', UInt64.toNat_add, UInt64.toNat_max, UInt64.toNat_div,
      UInt64.toNat_div, UInt64.toNat_mul, UInt64.toNat_sub_of_le _ _ (UInt64.le_of_lt hlt), hT]
    rfl
  · have hle : U ≤ L / elasticityMultiplier := UInt64.not_lt.mp hlt
    have hlt' : ¬ L.toNat / 2 < U.toNat := by
      rw [← hT]
      exact Nat.not_lt.mpr (UInt64.le_iff_toNat_le.mp hle)
    rw [if_neg hlt, if_neg hlt', UInt64.toNat_sub, UInt64.toNat_div, UInt64.toNat_div,
      UInt64.toNat_mul, UInt64.toNat_sub_of_le _ _ hle, hT]
    rfl

/-- While `base_fee * delta` fits, the code computes EIP-1559. -/
theorem calculateBaseFeePerGas_of_lt (h : checkGasLimit G L = true)
    (hprod : f.toNat * (U.toNat - L.toNat / 2 + (L.toNat / 2 - U.toNat)) < 2 ^ 64)
    (hfits : eip1559BaseFee L.toNat U.toNat f.toNat < 2 ^ 64) :
    (calculateBaseFeePerGas G L U f).map UInt64.toNat = some (eip1559BaseFee L.toNat U.toNat f.toNat) := by
  rw [calculateBaseFeePerGas_toNat h,
    wrappedBaseFee_of_lt (target_pos_of_checkGasLimit h) (UInt64.toNat_lt f) hprod hfits]

/-- Where `base_fee * delta` overflows, for every parent whose target is at
most `2 ^ 60`, the code's base fee is not EIP-1559's, though that one fits. -/
theorem calculateBaseFeePerGas_of_overflow (h : checkGasLimit G L = true)
    (hsmall : 8 * (L.toNat / 2) ≤ 2 ^ 63)
    (hprod : 2 ^ 64 ≤ f.toNat * (U.toNat - L.toNat / 2 + (L.toNat / 2 - U.toNat)))
    (hfits : eip1559BaseFee L.toNat U.toNat f.toNat < 2 ^ 64) :
    ∃ v, calculateBaseFeePerGas G L U f = some v ∧ v.toNat ≠ eip1559BaseFee L.toNat U.toNat f.toNat := by
  have hmap := calculateBaseFeePerGas_toNat (U := U) (f := f) h
  obtain ⟨v, hv, hvn⟩ := Option.map_eq_some_iff.mp hmap
  refine ⟨v, hv, ?_⟩
  rw [hvn]
  exact wrappedBaseFee_ne_of_overflow (target_pos_of_checkGasLimit h) (UInt64.toNat_lt f) hsmall
    hprod hfits

theorem checkGasLimit_iff (hfit : L.toNat + L.toNat / 1024 < 2 ^ 64) :
    checkGasLimit G L = true ↔
      G.toNat < L.toNat + L.toNat / 1024 ∧ L.toNat - L.toNat / 1024 < G.toNat ∧
        5000 ≤ G.toNat := by
  have hdiv : (L / gasLimitAdjustmentFactor).toNat = L.toNat / 1024 := UInt64.toNat_div _ _
  have hdivle : L / gasLimitAdjustmentFactor ≤ L :=
    UInt64.le_iff_toNat_le.mpr (by rw [hdiv]; exact Nat.div_le_self _ _)
  simp only [checkGasLimit, Bool.and_eq_true, decide_eq_true_eq, UInt64.lt_iff_toNat_lt,
    UInt64.le_iff_toNat_le, UInt64.toNat_add, UInt64.toNat_sub_of_le _ _ hdivle, hdiv,
    Nat.mod_eq_of_lt hfit]
  exact ⟨fun ⟨⟨hup, hdown⟩, hmin⟩ => ⟨hup, hdown, hmin⟩,
    fun ⟨hup, hdown, hmin⟩ => ⟨⟨hup, hdown⟩, hmin⟩⟩

end Code

/-- `calculate_base_fee_per_gas` on every gas limit that passes
`check_gas_limit`: the EIP-1559 value while `base_fee * delta` fits in
`u64`, another value wherever it overflows (targets up to `2 ^ 60`) even
when the EIP-1559 value fits. -/
theorem base_fee_eip1559_until_overflow (G L U f : UInt64) (h : checkGasLimit G L = true) :
    (f.toNat * (U.toNat - L.toNat / 2 + (L.toNat / 2 - U.toNat)) < 2 ^ 64 →
      eip1559BaseFee L.toNat U.toNat f.toNat < 2 ^ 64 →
      (calculateBaseFeePerGas G L U f).map UInt64.toNat =
        some (eip1559BaseFee L.toNat U.toNat f.toNat)) ∧
    (8 * (L.toNat / 2) ≤ 2 ^ 63 →
      2 ^ 64 ≤ f.toNat * (U.toNat - L.toNat / 2 + (L.toNat / 2 - U.toNat)) →
      eip1559BaseFee L.toNat U.toNat f.toNat < 2 ^ 64 →
      ∃ v, calculateBaseFeePerGas G L U f = some v ∧
        v.toNat ≠ eip1559BaseFee L.toNat U.toNat f.toNat) :=
  ⟨fun hprod hfits => calculateBaseFeePerGas_of_lt h hprod hfits,
    fun hsmall hprod hfits => calculateBaseFeePerGas_of_overflow h hsmall hprod hfits⟩

/-- A full 30M-gas parent at a base fee of 2000 gwei: EIP-1559 raises the
fee by an eighth, to 2250 gwei, but `2000 gwei * 15M` wraps and the code
answers about 2096 gwei.  A parent gas limit of `u64::MAX` wraps
`check_gas_limit`'s sum and rejects the parent's own limit, which the
unbounded check accepts. -/
theorem base_fee_wraps_at_2000_gwei :
    calculateBaseFeePerGas 30000000 30000000 30000000 2000000000000 = some 2096277132719 ∧
      (2096277132719 : UInt64).toNat ≠ eip1559BaseFee 30000000 30000000 2000000000000 ∧
      eip1559BaseFee 30000000 30000000 2000000000000 = 2250000000000 ∧
      checkGasLimit 18446744073709551615 18446744073709551615 = false := by
  have hcheck : checkGasLimit 30000000 30000000 = true := by decide
  obtain ⟨v, hv, hne⟩ := (base_fee_eip1559_until_overflow 30000000 30000000 30000000 2000000000000
    hcheck).2 (by decide) (by decide) (by decide)
  have hval : calculateBaseFeePerGas 30000000 30000000 30000000 2000000000000 =
      some 2096277132719 := by decide
  rw [hval, Option.some.injEq] at hv
  subst hv
  exact ⟨hval, hne, by decide, by decide⟩

end Ethrex.Blockchain
