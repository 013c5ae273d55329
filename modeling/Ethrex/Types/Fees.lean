/-
# `Ethrex.Types.Fees` — the two routes to a transaction's EIP-1559 price

`transaction.rs` computes what a transaction pays above the base fee twice.
`effective_gas_tip` starts from the caps (`gas_tip_cap`, `gas_fee_cap`, the
gas price standing in for both on a legacy transaction) and subtracts the
base fee with `checked_sub`: no tip below the base fee
(`effectiveGasTip_some`).  `effective_gas_price`, which LEVM charges, goes
by the transaction's type: the gas price for the legacy types and for a
privileged transaction, and for the two dynamic-fee types
`min(max_priority_fee, max_fee_per_gas - base_fee) + base_fee` with a plain
`u64` subtraction.

Where the tip exists the two agree for every type but the privileged one
(`effectiveGasPrice_of_effectiveGasTip`).  Below the base fee they do not:
the tip is `None`, while the price's subtraction leaves `u64` (a panic with
overflow checks, a wrapped difference without) and a price is still
returned (`effectiveGasPrice_of_maxFeePerGas_lt`).  A privileged transaction
is priced at its fee cap whatever its tip.
-/
import Ethrex.Types.Transaction

namespace Ethrex.Types

/-- `u64::checked_sub`. -/
def checkedSub (a b : UInt64) : Option UInt64 := if b ≤ a then some (a - b) else none

/-- `Transaction::gas_tip_cap`. -/
def Transaction.gasTipCap (tx : Transaction) : UInt64 := tx.maxPriorityFee.getD tx.gasPrice

/-- `Transaction::gas_fee_cap`. -/
def Transaction.gasFeeCap (tx : Transaction) : UInt64 := tx.maxFeePerGas.getD tx.gasPrice

/-- `Transaction::effective_gas_tip`. -/
def Transaction.effectiveGasTip (tx : Transaction) (baseFee : Option UInt64) : Option UInt64 :=
  match baseFee with
  | none => some tx.gasTipCap
  | some baseFee => (checkedSub tx.gasFeeCap baseFee).map fun tip => min tip tx.gasTipCap

/-- The transactions whose price `effective_gas_price` computes from the base fee. -/
def TxType.isDynamicFee : TxType → Bool
  | .eip1559 | .eip4844 => true
  | _ => false

variable {tx : Transaction} {b : UInt64}

theorem effectiveGasTip_some (tx : Transaction) (b : UInt64) :
    tx.effectiveGasTip (some b) =
      if tx.gasFeeCap < b then none else some (min (tx.gasFeeCap - b) tx.gasTipCap) := by
  unfold Transaction.effectiveGasTip checkedSub
  dsimp only
  by_cases h : tx.gasFeeCap < b
  · rw [if_neg (UInt64.not_le.mpr h), if_pos h]
    rfl
  · rw [if_pos (UInt64.not_lt.mp h), if_neg h]
    rfl

theorem effectiveGasPrice_of_isDynamicFee (h : tx.txType.isDynamicFee) :
    ∃ p m, tx.maxPriorityFee = some p ∧ tx.maxFeePerGas = some m ∧ tx.gasTipCap = p ∧
      tx.gasFeeCap = m ∧ tx.effectiveGasPrice (some b) = some (min p (m - b) + b) := by
  cases tx with
  | eip1559Transaction t => exact ⟨_, _, rfl, rfl, rfl, rfl, rfl⟩
  | eip4844Transaction t => exact ⟨_, _, rfl, rfl, rfl, rfl, rfl⟩
  | legacyTransaction t => cases h
  | eip2930Transaction t => cases h
  | privilegedL2Transaction t => cases h

theorem effectiveGasPrice_of_legacy (h : tx.txType = .legacy ∨ tx.txType = .eip2930) :
    tx.gasTipCap = tx.gasPrice ∧ tx.gasFeeCap = tx.gasPrice ∧
      tx.effectiveGasPrice (some b) = some tx.gasPrice := by
  cases tx with
  | legacyTransaction t => exact ⟨rfl, rfl, rfl⟩
  | eip2930Transaction t => exact ⟨rfl, rfl, rfl⟩
  | eip1559Transaction t => simp [Transaction.txType] at h
  | eip4844Transaction t => simp [Transaction.txType] at h
  | privilegedL2Transaction t => simp [Transaction.txType] at h

theorem effectiveGasPrice_of_privileged (h : tx.txType = .privileged) :
    tx.effectiveGasPrice (some b) = some tx.gasFeeCap := by
  cases tx with
  | privilegedL2Transaction t => rfl
  | _ => simp [Transaction.txType] at h

theorem toNat_add_min_sub {m p b : UInt64} (h : b ≤ m) :
    (b + min (m - b) p).toNat = b.toNat + min (m.toNat - b.toNat) p.toNat ∧
      (b + min (m - b) p).toNat ≤ m.toNat := by
  have hle : b.toNat ≤ m.toNat := UInt64.le_iff_toNat_le.mp h
  have hlt : m.toNat < 2 ^ 64 := UInt64.toNat_lt m
  have hsum : b.toNat + min (m.toNat - b.toNat) p.toNat < 2 ^ 64 := by omega
  rw [UInt64.toNat_add, UInt64.toNat_min, UInt64.toNat_sub_of_le m b h, Nat.mod_eq_of_lt hsum]
  exact ⟨rfl, by omega⟩

theorem effectiveGasPrice_of_effectiveGasTip {t : UInt64} (hty : tx.txType ≠ .privileged)
    (htip : tx.effectiveGasTip (some b) = some t) :
    tx.effectiveGasPrice (some b) = some (b + t) ∧ (b + t).toNat ≤ tx.gasFeeCap.toNat := by
  rw [effectiveGasTip_some] at htip
  by_cases hlt : tx.gasFeeCap < b
  · rw [if_pos hlt] at htip
    cases htip
  rw [if_neg hlt, Option.some.injEq] at htip
  subst htip
  have hle : b ≤ tx.gasFeeCap := UInt64.not_lt.mp hlt
  refine ⟨?_, (toNat_add_min_sub hle).2⟩
  by_cases hdyn : tx.txType.isDynamicFee
  · obtain ⟨p, m, -, -, hp, hm, hprice⟩ := effectiveGasPrice_of_isDynamicFee (b := b) hdyn
    rw [hprice, ← hp, ← hm, UInt64.add_comm, Option.some.injEq]
    congr 1
    apply UInt64.toNat_inj.mp
    rw [UInt64.toNat_min, UInt64.toNat_min]
    exact Nat.min_comm _ _
  · -- a legacy type: the tip is the whole margin over the base fee
    have hlegacy : tx.txType = .legacy ∨ tx.txType = .eip2930 := by
      cases h : tx.txType <;> simp_all [TxType.isDynamicFee]
    obtain ⟨htipCap, hfeeCap, hprice⟩ := effectiveGasPrice_of_legacy (b := b) hlegacy
    rw [hprice, Option.some.injEq]
    apply UInt64.toNat_inj.mp
    rw [(toNat_add_min_sub hle).1, htipCap, hfeeCap]
    rw [hfeeCap] at hle
    have hle' : b.toNat ≤ tx.gasPrice.toNat := UInt64.le_iff_toNat_le.mp hle
    omega

theorem effectiveGasPrice_of_maxFeePerGas_lt {m : UInt64} (hdyn : tx.txType.isDynamicFee)
    (hm : tx.maxFeePerGas = some m) (hlt : m < b) :
    m.toNat < b.toNat ∧ tx.effectiveGasTip (some b) = none ∧
      (tx.effectiveGasPrice (some b)).isSome := by
  obtain ⟨p, m', -, hm', -, hfee, hprice⟩ := effectiveGasPrice_of_isDynamicFee (b := b) hdyn
  rw [hm, Option.some.injEq] at hm'
  subst hm'
  refine ⟨UInt64.lt_iff_toNat_lt.mp hlt, ?_, by rw [hprice]; rfl⟩
  rw [effectiveGasTip_some, hfee, if_pos hlt]

/-- The two fee computations side by side, for every transaction and base
fee: the tip is the checked margin under the tip cap; where it exists the
price is the base fee plus the tip, within the fee cap, except for a
privileged transaction, which pays its fee cap; below the base fee a
dynamic-fee transaction has no tip but still a price. -/
theorem effective_fee_routes (tx : Transaction) (b : UInt64) :
    (tx.effectiveGasTip (some b) = none ↔ tx.gasFeeCap < b) ∧
    (¬ tx.gasFeeCap < b →
      tx.effectiveGasTip (some b) = some (min (tx.gasFeeCap - b) tx.gasTipCap)) ∧
    (∀ t, tx.txType ≠ .privileged → tx.effectiveGasTip (some b) = some t →
      tx.effectiveGasPrice (some b) = some (b + t) ∧ (b + t).toNat ≤ tx.gasFeeCap.toNat) ∧
    (∀ m, tx.txType.isDynamicFee → tx.maxFeePerGas = some m → m < b →
      m.toNat < b.toNat ∧ tx.effectiveGasTip (some b) = none ∧
        (tx.effectiveGasPrice (some b)).isSome) ∧
    (tx.txType = .privileged → tx.effectiveGasPrice (some b) = some tx.gasFeeCap) := by
  refine ⟨?_, ?_, fun t hty htip => effectiveGasPrice_of_effectiveGasTip hty htip,
    fun m hdyn hm hlt => effectiveGasPrice_of_maxFeePerGas_lt hdyn hm hlt,
    effectiveGasPrice_of_privileged⟩
  · rw [effectiveGasTip_some]
    by_cases hlt : tx.gasFeeCap < b
    · simp [hlt]
    · simp [hlt]
  · intro hlt
    rw [effectiveGasTip_some, if_neg hlt]

/-- An EIP-1559 transaction whose fee cap, 1, is under the base fee, 2. -/
def underpricedEip1559 : Transaction :=
  .eip1559Transaction
    { chainId := 1, nonce := 0, maxPriorityFeePerGas := 0, maxFeePerGas := 1, gasLimit := 21000,
      «to» := .create, value := 0, data := [], accessList := [], signatureYParity := false,
      signatureR := 0, signatureS := 0 }

/-- A privileged transaction with fee cap 10 and no priority fee. -/
def tiplessPrivileged : Transaction :=
  .privilegedL2Transaction
    { chainId := 1, nonce := 0, maxPriorityFeePerGas := 0, maxFeePerGas := 10, gasLimit := 21000,
      «to» := .create, value := 0, data := [], accessList := [], txType := .deposit,
      signatureYParity := false, signatureR := 0, signatureS := 0 }

theorem effective_fee_routes_diverge :
    underpricedEip1559.effectiveGasTip (some 2) = none ∧
      underpricedEip1559.effectiveGasPrice (some 2) = some 2 ∧
      tiplessPrivileged.effectiveGasTip (some 1) = some 0 ∧
      tiplessPrivileged.effectiveGasPrice (some 1) = some 10 := by
  have hunder := (effective_fee_routes underpricedEip1559 2).2.2.2.1 1 rfl rfl (by decide)
  have hpriv := (effective_fee_routes tiplessPrivileged 1).2.2.2.2 rfl
  exact ⟨hunder.2.1, rfl, rfl, hpriv⟩

end Ethrex.Types
