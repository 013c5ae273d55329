/-
# `Ethrex.Levm.Storage` — `SSTORE`, `TLOAD` and `TSTORE`

The storage handlers of `stack_memory_storage_flow.rs`, the `SSTORE` cost
of `gas_cost.rs`, and the parts of the `VM` they read and write
(`vm.rs`): the storage slots as the cache shows them, the slots touched in
the transaction, the refund counter `env.refunded_gas`, and the transient
storage `env.transient_storage`.

`SSTORE` keeps the net-metering of EIP-2200 only in part.  Its refunds
telescope: with `clearRefund o x` the 4800 owed for a slot of original
value `o` that now holds `x = 0`, one `SSTORE` from `c` to `n` adds
`clearRefund o n - clearRefund o c`, and 19900 more when a slot of
original value zero is reset to zero (`sstoreRefunds_eq_ok`).  The 2800 of
EIP-2200 for a slot reset to a non-zero original value sits in a branch
that is never taken: along any run of `SSTORE`s to a slot whose original
value is not zero, the refund counter moves by `clearRefund` of the final
value and nothing else (`sstoreRun_refund_of_original_ne_zero`).

`TLOAD` and `TSTORE` key the transient storage by the frame's
`msg_sender`, not by the address the frame runs at.
-/
import Ethrex.Levm.CallFrame
import Ethrex.Lib.BigEndian

namespace Ethrex.Levm

open Ethrex.Rlp (U256 Address H256)
open Checked

/-- `StorageSlot`. -/
structure StorageSlot where
  originalValue : U256
  currentValue : U256
  deriving DecidableEq, Repr

/-- The parts of the `VM` the storage handlers read and write: each slot as
the cache shows it (as the database holds it, original and current alike,
when it is not cached), `accrued_substate.touched_storage_slots`,
`env.refunded_gas` and `env.transient_storage`. -/
structure VM where
  storage : Address → H256 → StorageSlot
  touchedStorageSlots : List (Address × H256)
  refundedGas : Nat
  transientStorage : Address → U256 → U256

/-- The key of a slot: `to_big_endian`, then `H256::from`. -/
def h256OfU256 (x : U256) : H256 := ⟨BigEndian.toBytes 32 x.toNat, BigEndian.length_toBytes 32 _⟩

namespace VM

/-- `VM::access_storage_slot`: the slot, and whether it was cold; it is
warm from now on. -/
def accessStorageSlot (vm : VM) (address : Address) (key : H256) : (StorageSlot × Bool) × VM :=
  let storageSlotWasCold := decide ((address, key) ∉ vm.touchedStorageSlots)
  let touchedStorageSlots :=
    if storageSlotWasCold then (address, key) :: vm.touchedStorageSlots else vm.touchedStorageSlots
  ((vm.storage address key, storageSlotWasCold), { vm with touchedStorageSlots })

/-- `VM::update_account_storage`: the slot's current value replaced. -/
def updateAccountStorage (vm : VM) (address : Address) (key : H256) (newValue : U256) : VM :=
  { vm with storage := fun a k =>
      if a = address ∧ k = key then { vm.storage a k with currentValue := newValue }
      else vm.storage a k }

end VM

/-! ## `SSTORE` -/

/-- `SSTORE_STATIC`. -/
def sstoreStatic : Nat := 0
/-- `SSTORE_COLD_DYNAMIC`. -/
def sstoreColdDynamic : Nat := 2100
/-- `SSTORE_DEFAULT_DYNAMIC`. -/
def sstoreDefaultDynamic : Nat := 100
/-- `SSTORE_STORAGE_CREATION`. -/
def sstoreStorageCreation : Nat := 20000
/-- `SSTORE_STORAGE_MODIFICATION`. -/
def sstoreStorageModification : Nat := 2900
/-- `SSTORE_STIPEND`. -/
def sstoreStipend : Nat := 2300

/-- `gas_cost::sstore`: refused with the stipend or less left; 20000 to
create a slot, 2900 to first change one, 100 otherwise, and 2100 more when
it was cold. -/
def GasCost.sstore (storageSlot : StorageSlot) (newValue : U256) (storageSlotWasCold : Bool)
    (frame : CallFrame) : Except VMError Nat := do
  let gasLeft ← (Checked.sub frame.gasLimit frame.gasUsed).okOr (.outOfGas .consumedGasOverflow)
  if gasLeft ≤ sstoreStipend then throw (.outOfGas .maxGasLimitExceeded)
  let staticGas := sstoreStatic
  let baseDynamicGas :=
    if newValue = storageSlot.currentValue then sstoreDefaultDynamic
    else if storageSlot.currentValue = storageSlot.originalValue then
      if storageSlot.originalValue = 0 then sstoreStorageCreation else sstoreStorageModification
    else sstoreDefaultDynamic
  let baseDynamicGas ←
    if storageSlotWasCold then
      (Checked.add 64 baseDynamicGas sstoreColdDynamic).okOr (.outOfGas .gasCostOverflow)
    else pure baseDynamicGas
  (Checked.add 64 staticGas baseDynamicGas).okOr (.outOfGas .gasCostOverflow)

/-- The refund arithmetic of `op_sstore`, from the counter `gasRefunds`:
the branches in the source's order. -/
def sstoreRefunds (storageSlot : StorageSlot) (newValue : U256) (gasRefunds : Nat) :
    Except VMError Nat :=
  if newValue ≠ storageSlot.currentValue then
    if storageSlot.currentValue = storageSlot.originalValue then
      if storageSlot.originalValue ≠ 0 ∧ newValue = 0 then
        (Checked.add 64 gasRefunds 4800).okOr .gasRefundsOverflow
      else pure gasRefunds
    else if storageSlot.originalValue ≠ 0 then
      if storageSlot.currentValue = 0 then (Checked.sub gasRefunds 4800).okOr .gasRefundsUnderflow
      else if newValue = 0 then (Checked.add 64 gasRefunds 4800).okOr .gasRefundsOverflow
      else pure gasRefunds
    else if newValue = storageSlot.originalValue then
      if storageSlot.originalValue = 0 then (Checked.add 64 gasRefunds 19900).okOr .gasRefundsOverflow
      else (Checked.add 64 gasRefunds 2800).okOr .gasRefundsOverflow
    else pure gasRefunds
  else pure gasRefunds

/-- `VM::op_sstore`: the key and the value popped, the slot of the frame's
`to` accessed and charged for, the refund counter moved, the slot
written. -/
def opSstore (vm : VM) (frame : CallFrame) : Except VMError (VM × CallFrame) := do
  if frame.isStatic then throw .opcodeNotAllowedInStaticContext
  let (storageSlotKey, stack) ← frame.stack.pop
  let (newStorageSlotValue, stack) ← stack.pop
  let frame := { frame with stack }
  let key := h256OfU256 storageSlotKey
  let ((storageSlot, storageSlotWasCold), vm) := vm.accessStorageSlot frame.toAddress key
  let frame ← frame.increaseConsumedGas
    (← GasCost.sstore storageSlot newStorageSlotValue storageSlotWasCold frame)
  let gasRefunds ← sstoreRefunds storageSlot newStorageSlotValue vm.refundedGas
  let vm := { vm with refundedGas := gasRefunds }
  pure (vm.updateAccountStorage frame.toAddress key newStorageSlotValue, frame)

/-- `SSTORE`s of `values` to the slot `key`, one after the other in one
frame: each value and the key pushed, then `op_sstore`. -/
def sstoreRun (vm : VM) (frame : CallFrame) (key : U256) : List U256 → Except VMError (VM × CallFrame)
  | [] => .ok (vm, frame)
  | value :: values => do
    let (vm, frame) ← opSstore vm { frame with stack := ⟨key :: value :: frame.stack.stack⟩ }
    sstoreRun vm frame key values

/-! ## `TLOAD` and `TSTORE` -/

/-- `TLOAD`. -/
def tload : Nat := 100
/-- `TSTORE`. -/
def tstore : Nat := 100

/-- `VM::op_tload`: the value under the frame's `msg_sender` and the key. -/
def opTload (vm : VM) (frame : CallFrame) : Except VMError CallFrame := do
  let frame ← frame.increaseConsumedGas tload
  let (key, stack) ← frame.stack.pop
  let value := vm.transientStorage frame.msgSender key
  let stack ← stack.push value
  pure { frame with stack }

/-- `VM::op_tstore`: the value stored under the frame's `msg_sender` and
the key. -/
def opTstore (vm : VM) (frame : CallFrame) : Except VMError (VM × CallFrame) := do
  let frame ← frame.increaseConsumedGas tstore
  if frame.isStatic then throw .opcodeNotAllowedInStaticContext
  let (key, stack) ← frame.stack.pop
  let (value, stack) ← stack.pop
  let transientStorage := fun a k =>
    if a = frame.msgSender ∧ k = key then value else vm.transientStorage a k
  pure ({ vm with transientStorage }, { frame with stack })

/-! ## What `SSTORE` charges and refunds -/

/-- The 4800 owed back for clearing a slot whose original value is not
zero, while it stays clear. -/
def clearRefund (originalValue currentValue : U256) : Nat :=
  if originalValue ≠ 0 ∧ currentValue = 0 then 4800 else 0

/-- The 19900 given back for resetting a slot of original value zero to
zero. -/
def resetRefund (originalValue currentValue newValue : U256) : Nat :=
  if originalValue = 0 ∧ currentValue ≠ 0 ∧ newValue = 0 then 19900 else 0

theorem clearRefund_self (o : U256) : clearRefund o o = 0 := if_neg fun h => h.1 h.2

theorem clearRefund_zero_left (c : U256) : clearRefund 0 c = 0 := if_neg fun h => h.1 rfl

theorem clearRefund_zero_right {o : U256} (ho : o ≠ 0) : clearRefund o 0 = 4800 := if_pos ⟨ho, rfl⟩

theorem clearRefund_of_ne_zero (o : U256) {x : U256} (hx : x ≠ 0) : clearRefund o x = 0 :=
  if_neg fun h => hx h.2

theorem resetRefund_self (o c : U256) : resetRefund o c c = 0 := if_neg fun h => h.2.1 h.2.2

theorem resetRefund_unchanged (o n : U256) : resetRefund o o n = 0 := if_neg fun h => h.2.1 h.1

theorem resetRefund_of_ne_zero_left {o : U256} (ho : o ≠ 0) (c n : U256) : resetRefund o c n = 0 :=
  if_neg fun h => ho h.1

theorem resetRefund_of_ne_zero_right (o c : U256) {n : U256} (hn : n ≠ 0) : resetRefund o c n = 0 :=
  if_neg fun h => hn h.2.2

theorem resetRefund_zero {c : U256} (hc : c ≠ 0) : resetRefund 0 c 0 = 19900 := if_pos ⟨rfl, hc, rfl⟩

theorem sstoreRefunds_eq_ok {slot : StorageSlot} {n : U256} {r r' : Nat}
    (h : sstoreRefunds slot n r = .ok r') :
    r' + clearRefund slot.originalValue slot.currentValue =
      r + clearRefund slot.originalValue n + resetRefund slot.originalValue slot.currentValue n := by
  obtain ⟨o, c⟩ := slot
  unfold sstoreRefunds at h
  dsimp only at h
  by_cases hnc : n = c
  · -- the value stays: no refund moves
    subst hnc
    rw [if_neg (not_not.mpr rfl), Except.pure_eq_ok, Except.ok.injEq] at h
    rw [h, resetRefund_self, Nat.add_zero]
  rw [if_pos hnc] at h
  by_cases hco : c = o
  · -- the first change in the transaction
    subst hco
    rw [if_pos rfl] at h
    rw [clearRefund_self, resetRefund_unchanged, Nat.add_zero]
    by_cases hclear : c ≠ 0 ∧ n = 0
    · rw [if_pos hclear, Option.okOr_eq_ok, add_eq_some_iff] at h
      rw [hclear.2, clearRefund_zero_right hclear.1]
      omega
    · rw [if_neg hclear, Except.pure_eq_ok, Except.ok.injEq] at h
      by_cases hc : c = 0
      · subst hc
        rw [h, clearRefund_zero_left, Nat.add_zero]
      · have hn : n ≠ 0 := fun hn => hclear ⟨hc, hn⟩
        rw [h, clearRefund_of_ne_zero _ hn, Nat.add_zero]
  rw [if_neg hco] at h
  by_cases ho : o = 0
  · -- a slot created in this transaction: only its reset to zero is refunded
    subst ho
    rw [if_neg (not_not.mpr rfl), clearRefund_zero_left, clearRefund_zero_left] at *
    by_cases hn : n = 0
    · subst hn
      rw [if_pos rfl, if_pos rfl, Option.okOr_eq_ok, add_eq_some_iff] at h
      rw [resetRefund_zero hco]
      omega
    · rw [if_neg hn, Except.pure_eq_ok, Except.ok.injEq] at h
      rw [h, resetRefund_of_ne_zero_right _ _ hn]
  rw [if_pos ho, resetRefund_of_ne_zero_left ho] at *
  by_cases hc : c = 0
  · -- a cleared slot written again: its clearing refund is taken back
    subst hc
    rw [if_pos rfl, Option.okOr_eq_ok, sub_eq_some_iff] at h
    rw [clearRefund_zero_right ho, clearRefund_of_ne_zero _ hnc]
    omega
  rw [if_neg hc, clearRefund_of_ne_zero _ hc] at *
  by_cases hn : n = 0
  · subst hn
    rw [if_pos rfl, Option.okOr_eq_ok, add_eq_some_iff] at h
    rw [clearRefund_zero_right ho]
    omega
  · rw [if_neg hn, Except.pure_eq_ok, Except.ok.injEq] at h
    rw [h, clearRefund_of_ne_zero _ hn]

theorem VM.updateAccountStorage_self (vm : VM) (address : Address) (key : H256) (newValue : U256) :
    (vm.updateAccountStorage address key newValue).storage address key =
      { vm.storage address key with currentValue := newValue } := if_pos ⟨rfl, rfl⟩

theorem opSstore_eq_ok {vm vm' : VM} {frame frame' : CallFrame}
    (h : opSstore vm frame = .ok (vm', frame')) :
    ∃ key value rest, frame.stack.stack = key :: value :: rest ∧
      sstoreRefunds (vm.storage frame.toAddress (h256OfU256 key)) value vm.refundedGas =
        .ok vm'.refundedGas ∧
      vm'.storage = (vm.updateAccountStorage frame.toAddress (h256OfU256 key) value).storage ∧
      frame'.toAddress = frame.toAddress ∧ frame'.stack.stack = rest := by
  unfold opSstore at h
  by_cases hs : frame.isStatic
  · rw [if_pos hs] at h
    cases h
  rw [if_neg hs] at h
  obtain ⟨⟨key, stack₁⟩, hpop₁, h⟩ := Except.bind_eq_ok.mp h
  obtain ⟨⟨value, stack₂⟩, hpop₂, h⟩ := Except.bind_eq_ok.mp h
  dsimp only [VM.accessStorageSlot] at h
  obtain ⟨cost, -, h⟩ := Except.bind_eq_ok.mp h
  obtain ⟨frame₁, hframe₁, h⟩ := Except.bind_eq_ok.mp h
  obtain ⟨refunds, hrefunds, h⟩ := Except.bind_eq_ok.mp h
  rw [Except.pure_eq_ok, Except.ok.injEq, Prod.mk.injEq] at h
  obtain ⟨rfl, rfl⟩ := h
  obtain ⟨-, -, rfl⟩ := CallFrame.increaseConsumedGas_eq_ok.mp hframe₁
  refine ⟨key, value, stack₂.stack, ?_, hrefunds, rfl, rfl, rfl⟩
  rw [Stack.pop_eq_ok.mp hpop₁, Stack.pop_eq_ok.mp hpop₂]

/-- Along a run of `SSTORE`s to one slot the original value stays, the
current value is the last one stored, and the refund counter moves by the
telescoping `clearRefund` and the reset refunds. -/
theorem sstoreRun_eq_ok {vm vm' : VM} {frame frame' : CallFrame} {key : U256} {values : List U256}
    (h : sstoreRun vm frame key values = .ok (vm', frame')) :
    frame'.toAddress = frame.toAddress ∧
      (vm'.storage frame.toAddress (h256OfU256 key)).originalValue =
        (vm.storage frame.toAddress (h256OfU256 key)).originalValue ∧
      (vm'.storage frame.toAddress (h256OfU256 key)).currentValue =
        values.getLastD (vm.storage frame.toAddress (h256OfU256 key)).currentValue ∧
      ((vm.storage frame.toAddress (h256OfU256 key)).originalValue ≠ 0 →
        vm'.refundedGas + clearRefund (vm.storage frame.toAddress (h256OfU256 key)).originalValue
            (vm.storage frame.toAddress (h256OfU256 key)).currentValue =
          vm.refundedGas + clearRefund (vm.storage frame.toAddress (h256OfU256 key)).originalValue
            (vm'.storage frame.toAddress (h256OfU256 key)).currentValue) := by
  induction values generalizing vm frame with
  | nil =>
    cases h
    exact ⟨rfl, rfl, rfl, fun _ => rfl⟩
  | cons value values ih =>
    obtain ⟨⟨vm₁, frame₁⟩, h₁, h⟩ := Except.bind_eq_ok.mp h
    obtain ⟨key', value', rest, hstack, hrefund, hstorage, hto, -⟩ := opSstore_eq_ok h₁
    obtain ⟨rfl, rfl, -⟩ : key = key' ∧ value = value' ∧ frame.stack.stack = rest := by
      simpa using hstack
    obtain ⟨hto', horig, hlast, hrun⟩ := ih h
    rw [hto] at hto' horig hlast hrun
    have hslot : vm₁.storage frame.toAddress (h256OfU256 key) =
        { vm.storage frame.toAddress (h256OfU256 key) with currentValue := value } := by
      rw [hstorage]
      exact VM.updateAccountStorage_self _ _ _ _
    rw [hslot] at horig hlast hrun
    dsimp only at horig hlast hrun
    refine ⟨hto', horig, by rw [hlast, List.getLastD_cons], fun ho => ?_⟩
    have hstep := sstoreRefunds_eq_ok hrefund
    dsimp only at hstep
    rw [resetRefund_of_ne_zero_left ho] at hstep
    have hrest := hrun ho
    omega

/-- Along any run of `SSTORE`s to a slot whose original value is not zero,
from the slot as the transaction found it, the refund counter ends 4800
higher if the slot ends cleared and where it started otherwise, however
often the slot went back to its original value. -/
theorem sstoreRun_refund_of_original_ne_zero {vm vm' : VM} {frame frame' : CallFrame}
    {key : U256} {values : List U256}
    (hclean : (vm.storage frame.toAddress (h256OfU256 key)).currentValue =
      (vm.storage frame.toAddress (h256OfU256 key)).originalValue)
    (ho : (vm.storage frame.toAddress (h256OfU256 key)).originalValue ≠ 0)
    (h : sstoreRun vm frame key values = .ok (vm', frame')) :
    vm'.refundedGas = vm.refundedGas +
      if (vm'.storage frame.toAddress (h256OfU256 key)).currentValue = 0 then 4800 else 0 := by
  obtain ⟨-, -, -, hrun⟩ := sstoreRun_eq_ok h
  have hrefund := hrun ho
  rw [hclean, clearRefund_self, Nat.add_zero] at hrefund
  rw [hrefund]
  unfold clearRefund
  by_cases hf : (vm'.storage frame.toAddress (h256OfU256 key)).currentValue = 0
  · rw [if_pos ⟨ho, hf⟩, if_pos hf]
  · rw [if_neg fun h' => hf h'.2, if_neg hf]

set_option maxRecDepth 8192 in
/-- A slot of original value 1, cold, set to 2 and back to 1: the refund
counter does not move, where EIP-2200 gives back 2800. -/
theorem sstoreRun_reset_refunds_nothing :
    ∃ vm' frame', sstoreRun ⟨fun _ _ => ⟨1, 1⟩, [], 0, fun _ _ => 0⟩
        ⟨100000, 0, List.Vector.replicate 20 0, List.Vector.replicate 20 0, ⟨[]⟩, [], false⟩ 0 [2, 1] =
        .ok (vm', frame') ∧
      (vm'.storage (List.Vector.replicate 20 0) (h256OfU256 0)).currentValue = 1 ∧
      vm'.refundedGas = 0 := by
  obtain ⟨⟨vm', frame'⟩, h⟩ : ∃ r, sstoreRun ⟨fun _ _ => ⟨1, 1⟩, [], 0, fun _ _ => 0⟩
      ⟨100000, 0, List.Vector.replicate 20 0, List.Vector.replicate 20 0, ⟨[]⟩, [], false⟩ 0 [2, 1] =
      .ok r := ⟨_, rfl⟩
  obtain ⟨-, -, hlast, -⟩ := sstoreRun_eq_ok h
  have hrefund := sstoreRun_refund_of_original_ne_zero rfl (by decide) h
  refine ⟨vm', frame', h, hlast.trans rfl, ?_⟩
  rw [hrefund, hlast]
  rfl

/-! ## What `TLOAD` reads -/

theorem opTstore_eq_ok {vm vm' : VM} {frame frame' : CallFrame}
    (h : opTstore vm frame = .ok (vm', frame')) :
    ∃ key value rest, frame.stack.stack = key :: value :: rest ∧
      vm'.transientStorage = (fun a k =>
        if a = frame.msgSender ∧ k = key then value else vm.transientStorage a k) ∧
      frame'.stack.stack = rest := by
  unfold opTstore at h
  obtain ⟨frame₁, hframe₁, h⟩ := Except.bind_eq_ok.mp h
  obtain ⟨-, -, rfl⟩ := CallFrame.increaseConsumedGas_eq_ok.mp hframe₁
  by_cases hs : frame.isStatic
  · rw [if_pos hs] at h
    cases h
  rw [if_neg hs] at h
  obtain ⟨⟨key, stack₁⟩, hpop₁, h⟩ := Except.bind_eq_ok.mp h
  obtain ⟨⟨value, stack₂⟩, hpop₂, h⟩ := Except.bind_eq_ok.mp h
  dsimp only at h
  rw [Except.pure_eq_ok, Except.ok.injEq, Prod.mk.injEq] at h
  obtain ⟨rfl, rfl⟩ := h
  refine ⟨key, value, stack₂.stack, ?_, rfl, rfl⟩
  rw [Stack.pop_eq_ok.mp hpop₁, Stack.pop_eq_ok.mp hpop₂]

theorem opTload_eq_ok {vm : VM} {frame frame' : CallFrame} (h : opTload vm frame = .ok frame') :
    ∃ key rest, frame.stack.stack = key :: rest ∧
      frame'.stack.stack = vm.transientStorage frame.msgSender key :: rest := by
  unfold opTload at h
  obtain ⟨frame₁, hframe₁, h⟩ := Except.bind_eq_ok.mp h
  obtain ⟨-, -, rfl⟩ := CallFrame.increaseConsumedGas_eq_ok.mp hframe₁
  obtain ⟨⟨key, stack₁⟩, hpop, h⟩ := Except.bind_eq_ok.mp h
  obtain ⟨stack₂, hpush, h⟩ := Except.bind_eq_ok.mp h
  rw [Except.pure_eq_ok, Except.ok.injEq] at h
  subst h
  exact ⟨key, stack₁.stack, Stack.pop_eq_ok.mp hpop, Stack.push_eq_ok hpush⟩

/-- A `TLOAD` after a `TSTORE` of the same key reads the stored value
exactly when the two frames were called by the same account, whatever
addresses the two frames run at. -/
theorem opTload_after_opTstore {vm vm' : VM} {store store' load load' : CallFrame}
    {key value : U256} {rest rest' : List U256}
    (hstack : store.stack.stack = key :: value :: rest) (hstore : opTstore vm store = .ok (vm', store'))
    (hstack' : load.stack.stack = key :: rest') (hload : opTload vm' load = .ok load') :
    load'.stack.stack =
      (if load.msgSender = store.msgSender then value else vm.transientStorage load.msgSender key) ::
        rest' := by
  obtain ⟨key₁, value₁, rest₁, hstack₁, htransient, -⟩ := opTstore_eq_ok hstore
  obtain ⟨key₂, rest₂, hstack₂, hloaded⟩ := opTload_eq_ok hload
  rw [hstack] at hstack₁
  rw [hstack'] at hstack₂
  obtain ⟨rfl, rfl, -⟩ : key = key₁ ∧ value = value₁ ∧ rest = rest₁ := by simpa using hstack₁
  obtain ⟨rfl, rfl⟩ : key = key₂ ∧ rest' = rest₂ := by simpa using hstack₂
  rw [hloaded, htransient]
  beta_reduce
  by_cases hsender : load.msgSender = store.msgSender
  · rw [if_pos (And.intro hsender rfl), if_pos hsender]
  · rw [if_neg fun h' => hsender h'.1, if_neg hsender]

/-- Contract `A` (the address `1…1`), called by `B` (`2…2`), stores 1
under key 0; `A` called by `C` (`3…3`) then loads key 0 and reads 0. -/
theorem opTload_other_caller_reads_zero :
    ∃ vm' store' load', opTstore ⟨fun _ _ => ⟨0, 0⟩, [], 0, fun _ _ => 0⟩
        ⟨100000, 0, List.Vector.replicate 20 2, List.Vector.replicate 20 1, ⟨[0, 1]⟩, [], false⟩ =
        .ok (vm', store') ∧
      opTload vm' ⟨100000, 0, List.Vector.replicate 20 3, List.Vector.replicate 20 1, ⟨[0]⟩, [], false⟩ =
        .ok load' ∧
      load'.stack.stack = [0] := by
  obtain ⟨⟨vm', store'⟩, hstore⟩ : ∃ r, opTstore ⟨fun _ _ => ⟨0, 0⟩, [], 0, fun _ _ => 0⟩
      ⟨100000, 0, List.Vector.replicate 20 2, List.Vector.replicate 20 1, ⟨[0, 1]⟩, [], false⟩ =
      .ok r := ⟨_, rfl⟩
  obtain ⟨load', hload⟩ : ∃ f, opTload vm'
      ⟨100000, 0, List.Vector.replicate 20 3, List.Vector.replicate 20 1, ⟨[0]⟩, [], false⟩ = .ok f :=
    ⟨_, rfl⟩
  refine ⟨vm', store', load', hstore, hload, ?_⟩
  rw [opTload_after_opTstore rfl hstore rfl hload]
  rfl

end Ethrex.Levm
