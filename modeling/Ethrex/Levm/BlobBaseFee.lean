/-
# `Ethrex.Levm.BlobBaseFee` — `fake_exponential` and the blob base fee

EIP-4844 prices blob gas at `fake_exponential(1, excess_blob_gas, 3338477)`,
an integer approximation of `e ^ (excess / 3338477)` by its Taylor series:
the term `numerator_accum` starts at `factor * denominator`, each pass adds
it to the sum and replaces it by `numerator_accum * numerator / (denominator * i)`,
and the loop stops at the first term that is `0`.  The EIP computes over
unbounded integers (`eip4844FakeExponential`); `gas_cost::fake_exponential`
computes in `u64` with `checked_*` and returns
`InternalError::ArithmeticOperationOverflow` as soon as one of them fails.

## What is proved

| | |
| :-- | :-- |
| `fakeExponentialBody_eq` | a checked pass is the unbounded pass where `PassFits` holds, the overflow error otherwise |
| `fakeExponential_ne_none` | the loop ends: its `u64` counter `i` is checked, so at most `2^64 - 1` passes continue |
| `fake_exponential_exact_until_overflow` | an `Ok` is the EIP's value; an error comes from a pass of the EIP's run that forms a number beyond `u64`; where no pass does, the code answers the EIP's value |

The last is the whole behaviour, and it is not "the result fits, so the code
returns it": the product `numerator_accum * numerator` is formed before the
division by `denominator * i` and leaves `u64` while the sum is still far
below it.  At the protocol's constants and an excess of `50_000_000` blob
gas the EIP's value is `3_194_333`, and the code fails on its eleventh pass
(`fake_exponential_overflows_at_fifty_million`).

The loop state is the three `let mut`s of the source over `Nat`: the
code's checks keep each below `2^64`, so `Nat` with the checks written
out is `u64` with `checked_*`.
-/
import Ethrex.Vm.ExecuteBlock
import Ethrex.Lib.Loop

namespace Ethrex.Levm

open Ethrex.Rlp (U256)
open Checked

/-- The `let mut`s of `fake_exponential`'s loop. -/
structure FakeExponentialState where
  i : Nat
  output : Nat
  numeratorAccum : Nat
  deriving DecidableEq, Repr

/-- One pass of `while numerator_accum > 0 { .. }` in `fake_exponential`:
`none` leaves the loop. -/
def fakeExponentialPass (numerator denominator : Nat) (s : FakeExponentialState) :
    Except VMError (Option FakeExponentialState) :=
  if 0 < s.numeratorAccum then do
    let output ← (add 64 s.output s.numeratorAccum).okOr (.internal .arithmeticOperationOverflow)
    -- the receiver of `checked_div` is evaluated before its argument
    let product ← (mul 64 s.numeratorAccum numerator).okOr (.internal .arithmeticOperationOverflow)
    let divisor ← (mul 64 denominator s.i).okOr (.internal .arithmeticOperationOverflow)
    let numeratorAccum ← (div product divisor).okOr (.internal .arithmeticOperationOverflow)
    let i ← (add 64 s.i 1).okOr (.internal .arithmeticOperationOverflow)
    pure (some ⟨i, output, numeratorAccum⟩)
  else pure none

/-- The pass as the body of a Rust loop. -/
def fakeExponentialBody (numerator denominator : Nat) (s : FakeExponentialState) :
    Outcome VMError (Option FakeExponentialState) :=
  .ofExcept (fakeExponentialPass numerator denominator s)

/-- `gas_cost::fake_exponential`.  The counter `i` starts at `1` and every
pass that goes on raises it with `checked_add`, so `2 ^ 64` passes of fuel
are more than the loop can use (`fakeExponential_ne_none`). -/
def fakeExponential (factor numerator denominator : Nat) : Option (Outcome VMError Nat) :=
  match (mul 64 factor denominator).okOr (.internal .arithmeticOperationOverflow) with
  | .error e => some (.err e)
  | .ok numeratorAccum =>
    (Outcome.loop (fakeExponentialBody numerator denominator) (2 ^ 64) ⟨1, 0, numeratorAccum⟩).map
      fun r => r >>= fun s =>
        .ofExcept ((div s.output denominator).okOr (.internal .arithmeticOperationOverflow))

/-- `MIN_BASE_FEE_PER_BLOB_GAS`. -/
def minBaseFeePerBlobGas : Nat := 1

/-- `BLOB_BASE_FEE_UPDATE_FRACTION`. -/
def blobBaseFeeUpdateFraction : Nat := 3338477

/-- `VM::get_base_fee_per_blob_gas`: the block's excess blob gas (`0` when
it has none) must fit in `u64`. -/
def getBaseFeePerBlobGas (env : Ethrex.Vm.Environment) : Option (Outcome VMError U256) :=
  let excessBlobGas := (env.blockExcessBlobGas.getD 0).toNat
  if excessBlobGas < 2 ^ 64 then
    (fakeExponential minBaseFeePerBlobGas excessBlobGas blobBaseFeeUpdateFraction).map
      fun r => r >>= fun fee => .ok (BitVec.ofNat 256 fee)
  else some (.err .veryLargeNumber)

/-! ## The EIP's loop over unbounded integers -/

/-- A pass of EIP-4844's `fake_exponential`: nothing is checked. -/
def eip4844Pass (numerator denominator : Nat) (s : FakeExponentialState) :
    Option FakeExponentialState :=
  if 0 < s.numeratorAccum then
    some ⟨s.i + 1, s.output + s.numeratorAccum, s.numeratorAccum * numerator / (denominator * s.i)⟩
  else none

/-- The EIP's pass as the body of a loop that never fails. -/
def eip4844Body (numerator denominator : Nat) (s : FakeExponentialState) :
    Outcome VMError (Option FakeExponentialState) :=
  .ok (eip4844Pass numerator denominator s)

/-- EIP-4844's `fake_exponential` over unbounded integers, with at most
`fuel` passes. -/
def eip4844FakeExponential (factor numerator denominator fuel : Nat) : Option Nat :=
  match Outcome.loop (eip4844Body numerator denominator) fuel ⟨1, 0, factor * denominator⟩ with
  | some (.ok s) => some (s.output / denominator)
  | _ => none

/-- Every number the pass on `s` forms fits in `u64`, and it divides by a
nonzero number.  A pass that stops forms none. -/
def PassFits (numerator denominator : Nat) (s : FakeExponentialState) : Prop :=
  0 < s.numeratorAccum →
    s.output + s.numeratorAccum < 2 ^ 64 ∧ s.numeratorAccum * numerator < 2 ^ 64 ∧
      denominator * s.i < 2 ^ 64 ∧ 0 < denominator * s.i ∧ s.i + 1 < 2 ^ 64

instance (numerator denominator : Nat) (s : FakeExponentialState) :
    Decidable (PassFits numerator denominator s) :=
  inferInstanceAs (Decidable (_ → _))

/-! ## One pass -/

section Pass

variable (numerator denominator : Nat) (s : FakeExponentialState)

theorem fakeExponentialPass_eq :
    fakeExponentialPass numerator denominator s =
      if PassFits numerator denominator s then .ok (eip4844Pass numerator denominator s)
      else .error (.internal .arithmeticOperationOverflow) := by
  unfold fakeExponentialPass eip4844Pass PassFits
  by_cases hacc : 0 < s.numeratorAccum
  · simp only [hacc, if_true, true_implies, add, mul, div, Option.okOr_ite_bind, Except.pure_eq_ok]
    split_ifs <;> first | rfl | omega
  · simp [hacc]

theorem fakeExponentialBody_eq :
    fakeExponentialBody numerator denominator s =
      if PassFits numerator denominator s then eip4844Body numerator denominator s
      else .err (.internal .arithmeticOperationOverflow) := by
  unfold fakeExponentialBody eip4844Body
  rw [fakeExponentialPass_eq]
  split_ifs <;> rfl

end Pass

section Loop

variable {numerator denominator : Nat} {s s' : FakeExponentialState}

theorem eip4844Body_of_fakeExponentialBody {r : Option FakeExponentialState}
    (h : fakeExponentialBody numerator denominator s = .ok r) :
    eip4844Body numerator denominator s = .ok r := by
  rw [fakeExponentialBody_eq] at h
  split_ifs at h
  exact h

theorem fakeExponentialBody_continue (h : fakeExponentialBody numerator denominator s = .ok (some s')) :
    s.i + 1 < 2 ^ 64 ∧ s'.i = s.i + 1 := by
  rw [fakeExponentialBody_eq] at h
  split_ifs at h with hfit
  simp only [eip4844Body, eip4844Pass, Outcome.ok.injEq] at h
  split_ifs at h with hacc
  cases h
  exact ⟨(hfit hacc).2.2.2.2, rfl⟩

theorem fakeExponentialLoop_ne_none (numerator denominator numeratorAccum : Nat) :
    Outcome.loop (fakeExponentialBody numerator denominator) (2 ^ 64) ⟨1, 0, numeratorAccum⟩ ≠ none := by
  refine Outcome.loop_ne_none (fun s => 2 ^ 64 - s.i) (fun s s' _ hbody => ?_) _ _ .init
    (Nat.sub_lt (Nat.two_pow_pos 64) Nat.one_pos)
  obtain ⟨hlt, hi⟩ := fakeExponentialBody_continue hbody
  show 2 ^ 64 - s'.i < 2 ^ 64 - s.i
  omega

end Loop

/-! ## `fake_exponential` -/

section FakeExponential

variable {factor numerator denominator : Nat}

theorem fakeExponential_of_lt (hd : 0 < denominator) (h : factor * denominator < 2 ^ 64) :
    fakeExponential factor numerator denominator =
      (Outcome.loop (fakeExponentialBody numerator denominator) (2 ^ 64)
        ⟨1, 0, factor * denominator⟩).map fun r => r >>= fun s => .ok (s.output / denominator) := by
  rw [fakeExponential, mul_of_lt h, Option.okOr_some]
  simp only [div_of_ne_zero (Nat.pos_iff_ne_zero.mp hd), Option.okOr_some, Outcome.ofExcept_ok]

theorem fakeExponential_of_le (h : 2 ^ 64 ≤ factor * denominator) :
    fakeExponential factor numerator denominator =
      some (.err (.internal .arithmeticOperationOverflow)) := by
  rw [fakeExponential, show mul 64 factor denominator = none from if_neg (Nat.not_lt.mpr h)]
  rfl

theorem eip4844FakeExponential_of_loop {fuel : Nat} {s : FakeExponentialState}
    (h : Outcome.loop (eip4844Body numerator denominator) fuel ⟨1, 0, factor * denominator⟩ =
      some (.ok s)) :
    eip4844FakeExponential factor numerator denominator fuel = some (s.output / denominator) := by
  rw [eip4844FakeExponential, h]

/-- `fake_exponential` returns: its loop ends and nothing in it panics. -/
theorem fakeExponential_ne_none (factor numerator denominator : Nat) :
    fakeExponential factor numerator denominator ≠ none := by
  unfold fakeExponential
  split
  · exact Option.some_ne_none _
  · rw [Ne, Option.map_eq_none_iff]
    exact fakeExponentialLoop_ne_none _ _ _

theorem fakeExponential_ok {v : Nat} (hd : 0 < denominator)
    (h : fakeExponential factor numerator denominator = some (.ok v)) :
    eip4844FakeExponential factor numerator denominator (2 ^ 64) = some v := by
  by_cases hfd : factor * denominator < 2 ^ 64
  · rw [fakeExponential_of_lt hd hfd, Option.map_eq_some_iff] at h
    obtain ⟨r, hloop, hr⟩ := h
    cases r with
    | ok s =>
      cases hr
      exact eip4844FakeExponential_of_loop
        (Outcome.loop_ok_of_refines (fun _ _ => eip4844Body_of_fakeExponentialBody) hloop)
    | err e => cases hr
    | panic => cases hr
  · rw [fakeExponential_of_le (Nat.not_lt.mp hfd)] at h
    cases h

/-- An error of the code is the overflow error, raised by the initial product
or by a pass of the EIP's run that forms a number beyond `u64`. -/
theorem fakeExponential_err {e : VMError} (hd : 0 < denominator)
    (h : fakeExponential factor numerator denominator = some (.err e)) :
    e = .internal .arithmeticOperationOverflow ∧
      (2 ^ 64 ≤ factor * denominator ∨
        ∃ s, Outcome.Reachable (eip4844Body numerator denominator) ⟨1, 0, factor * denominator⟩ s ∧
          ¬ PassFits numerator denominator s) := by
  by_cases hfd : factor * denominator < 2 ^ 64
  · rw [fakeExponential_of_lt hd hfd, Option.map_eq_some_iff] at h
    obtain ⟨r, hloop, hr⟩ := h
    cases r with
    | ok s => cases hr
    | err e' =>
      cases hr
      -- the failing pass is on a state of the EIP's run, and fails its checks
      obtain ⟨s, hreach, hbody⟩ := Outcome.Reachable.of_loop_err hloop
      rw [fakeExponentialBody_eq] at hbody
      split_ifs at hbody with hfit
      · simp [eip4844Body] at hbody
      · cases hbody
        exact ⟨rfl, .inr ⟨s, hreach.mono fun _ _ => eip4844Body_of_fakeExponentialBody, hfit⟩⟩
    | panic => cases hr
  · rw [fakeExponential_of_le (Nat.not_lt.mp hfd)] at h
    cases h
    exact ⟨rfl, .inl (Nat.not_lt.mp hfd)⟩

/-- Where no number of the EIP's run leaves `u64`, the code answers the EIP's value. -/
theorem fakeExponential_of_fits {fuel v : Nat} (hd : 0 < denominator)
    (href : eip4844FakeExponential factor numerator denominator fuel = some v)
    (hfd : factor * denominator < 2 ^ 64)
    (hfits : ∀ s, Outcome.Reachable (eip4844Body numerator denominator)
      ⟨1, 0, factor * denominator⟩ s → PassFits numerator denominator s) :
    fakeExponential factor numerator denominator = some (.ok v) := by
  -- the EIP's run breaks on some `s` with `v = s.output / denominator`
  unfold eip4844FakeExponential at href
  split at href
  · rename_i s hloop
    cases href
    -- on the EIP's states the checked pass is the EIP's, so the two loops are one
    have hagree : ∀ s, Outcome.Reachable (eip4844Body numerator denominator)
        ⟨1, 0, factor * denominator⟩ s →
        fakeExponentialBody numerator denominator s = eip4844Body numerator denominator s :=
      fun s hs => by rw [fakeExponentialBody_eq, if_pos (hfits s hs)]
    have hcongr := Outcome.loop_congr hagree (2 ^ 64) _ Outcome.Reachable.init
    obtain ⟨r, hr⟩ := Option.ne_none_iff_exists'.mp (fakeExponentialLoop_ne_none numerator denominator
      (factor * denominator))
    have hs : r = .ok s := Outcome.loop_eq_of_eq_some (hcongr ▸ hr) hloop
    rw [fakeExponential_of_lt hd hfd, hr, hs]
    rfl
  · cases href

end FakeExponential

example : fakeExponential 1 40000000 3338477 = some (.ok 159773) := by decide

theorem fake_exponential_exact_until_overflow (factor numerator denominator : Nat)
    (hd : 0 < denominator) :
    fakeExponential factor numerator denominator ≠ none ∧
    (∀ v, fakeExponential factor numerator denominator = some (.ok v) →
      eip4844FakeExponential factor numerator denominator (2 ^ 64) = some v) ∧
    (∀ e, fakeExponential factor numerator denominator = some (.err e) →
      e = .internal .arithmeticOperationOverflow ∧
        (2 ^ 64 ≤ factor * denominator ∨
          ∃ s, Outcome.Reachable (eip4844Body numerator denominator) ⟨1, 0, factor * denominator⟩ s ∧
            ¬ PassFits numerator denominator s)) ∧
    (∀ fuel v, eip4844FakeExponential factor numerator denominator fuel = some v →
      factor * denominator < 2 ^ 64 →
      (∀ s, Outcome.Reachable (eip4844Body numerator denominator) ⟨1, 0, factor * denominator⟩ s →
        PassFits numerator denominator s) →
      fakeExponential factor numerator denominator = some (.ok v)) :=
  ⟨fakeExponential_ne_none factor numerator denominator,
    fun _ h => fakeExponential_ok hd h,
    fun _ h => fakeExponential_err hd h,
    fun _ _ href hfd hfits => fakeExponential_of_fits hd href hfd hfits⟩

/-- An excess of `50_000_000` blob gas at the protocol's constants: the EIP's
run adds 52 terms and ends at `3_194_333`, but on the eleventh the code forms
`numerator_accum * 50_000_000` beyond `u64` and returns the overflow
error, and so does `get_base_fee_per_blob_gas`. -/
theorem fake_exponential_overflows_at_fifty_million :
    eip4844FakeExponential minBaseFeePerBlobGas 50000000 blobBaseFeeUpdateFraction 53 = some 3194333 ∧
      3194333 < 2 ^ 64 ∧
      fakeExponential minBaseFeePerBlobGas 50000000 blobBaseFeeUpdateFraction =
        some (.err (.internal .arithmeticOperationOverflow)) ∧
      (∃ s, Outcome.Reachable (eip4844Body 50000000 blobBaseFeeUpdateFraction)
          ⟨1, 0, minBaseFeePerBlobGas * blobBaseFeeUpdateFraction⟩ s ∧
        ¬ PassFits 50000000 blobBaseFeeUpdateFraction s) ∧
      ∀ env : Ethrex.Vm.Environment, env.blockExcessBlobGas = some 50000000 →
        getBaseFeePerBlobGas env = some (.err (.internal .arithmeticOperationOverflow)) := by
  have href : eip4844FakeExponential minBaseFeePerBlobGas 50000000 blobBaseFeeUpdateFraction 53 =
      some 3194333 := by decide
  have hcode : fakeExponential minBaseFeePerBlobGas 50000000 blobBaseFeeUpdateFraction =
      some (.err (.internal .arithmeticOperationOverflow)) := by decide
  obtain ⟨-, hpass⟩ := (fake_exponential_exact_until_overflow minBaseFeePerBlobGas 50000000
    blobBaseFeeUpdateFraction (by decide)).2.2.1 _ hcode
  refine ⟨href, by decide, hcode, hpass.resolve_left (by decide), fun env henv => ?_⟩
  have hexcess : ((env.blockExcessBlobGas.getD 0).toNat) = 50000000 := by rw [henv]; rfl
  simp only [getBaseFeePerBlobGas, hexcess, hcode]
  rfl

end Ethrex.Levm
