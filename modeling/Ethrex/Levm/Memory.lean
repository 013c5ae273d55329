/-
# `Ethrex.Levm.Memory` — a frame's memory and what its growth costs

`memory.rs`, the costs of `gas_cost.rs` that read it, and the handlers of
`MLOAD`, `MSTORE`, `MSTORE8` and `MCOPY` (`stack_memory_storage_flow.rs`).
Memory is a byte vector that only grows, by `try_resize`, to the next
multiple of 32 bytes at or above what an access needs, zero-filled.  Memory
of `w` words costs `3·w + w²/512` (`cost`), and a handler that grows memory
from `m` bytes to `n` pays `expansion_cost n m`, the difference.

`MLOAD`, `MSTORE` and `MSTORE8` charge for exactly the size they grow
memory to, so along a run of them the charges for growth add up to the
cost of the memory there is (`runMemoryOps_accounted`).  `MCOPY` charges
for the larger of its source and destination ranges, and grows memory for
the destination only.
-/
import Ethrex.Levm.CallFrame
import Ethrex.Lib.BigEndian
import Mathlib.Data.List.GetD

namespace Ethrex.Levm

open Ethrex.Rlp (U256 Bytes)
open Checked

/-- `WORD_SIZE_IN_BYTES_USIZE`, also `WORD_SIZE`. -/
def wordSize : Nat := 32

/-- `MEMORY_EXPANSION_QUOTIENT`. -/
def memoryExpansionQuotient : Nat := 512

/-- `try_into` a `usize` (or a `u64`: both are 64 bits here). -/
def toUsize (n : Nat) : Option Nat := if n < 2 ^ 64 then some n else none

theorem toUsize_eq_some {n m : Nat} : toUsize n = some m ↔ n < 2 ^ 64 ∧ n = m := by
  unfold toUsize
  split_ifs with h
  · exact ⟨fun he => ⟨h, Option.some.inj he⟩, fun ⟨_, he⟩ => congrArg some he⟩
  · exact ⟨fun he => he.elim, fun ⟨h', _⟩ => absurd h' h⟩

namespace Memory

/-- `try_resize`: memory grown to the next multiple of 32 at or above
`uncheckedNewSize`, zero-filled; never shrunk. -/
def tryResize (memory : Memory) (uncheckedNewSize : Nat) : Except VMError Memory := do
  if uncheckedNewSize = 0 ∨ uncheckedNewSize ≤ memory.length then return memory
  let newSize ← (Checked.nextMultipleOf 64 uncheckedNewSize wordSize).okOr .outOfBounds
  if newSize > memory.length then
    let additionalSize ←
      (Checked.sub newSize memory.length).okOr (.internal .arithmeticOperationUnderflow)
    return memory ++ List.replicate additionalSize 0
  return memory

/-- `load_range`: the `size` bytes at `offset`, memory grown to hold them. -/
def loadRange (memory : Memory) (offset : U256) (size : Nat) : Except VMError (Memory × Bytes) := do
  if size = 0 then return (memory, [])
  let offset ← (toUsize offset.toNat).okOr .veryLargeNumber
  let memory ← tryResize memory (← (Checked.add 64 offset size).okOr .outOfBounds)
  let stop ← (Checked.add 64 offset size).okOr .outOfBounds
  if stop ≤ memory.length then return (memory, (memory.take stop).drop offset)
  throw .outOfBounds

/-- `load_word`: the word at `offset`, big-endian. -/
def loadWord (memory : Memory) (offset : U256) : Except VMError (Memory × U256) :=
  (loadRange memory offset wordSize).map fun (memory, bytes) =>
    (memory, BitVec.ofNat 256 (BigEndian.ofBytes bytes))

/-- `try_store`: `data` written over the `dataSize` bytes at `atOffset`,
which must be there; the zip stops at the shorter of the two. -/
def tryStore (memory : Memory) (data : Bytes) (atOffset : U256) (dataSize : Nat) :
    Except VMError Memory := do
  if dataSize = 0 then return memory
  let atOffset ← (toUsize atOffset.toNat).okOr .veryLargeNumber
  let stop ← (Checked.add 64 atOffset dataSize).okOr .outOfBounds
  if stop ≤ memory.length then
    let written := data.take dataSize
    return memory.take atOffset ++ written ++ memory.drop (atOffset + written.length)
  throw .outOfBounds

/-- `try_store_data`: memory grown to hold `data` at `offset`, then written. -/
def tryStoreData (memory : Memory) (offset : U256) (data : Bytes) : Except VMError Memory := do
  let newSize ← (Checked.add 256 offset.toNat data.length).okOr .outOfBounds
  let newSize ← (toUsize newSize).okOr .veryLargeNumber
  let memory ← tryResize memory newSize
  tryStore memory data offset data.length

/-- `try_copy_within`: memory grown to hold the destination range, the
source bytes read into a buffer (zero past the end of memory), then the
buffer written over the destination. -/
def tryCopyWithin (memory : Memory) (fromOffset toOffset : U256) (size : Nat) :
    Except VMError Memory := do
  if size = 0 then return memory
  let fromOffset ← (toUsize fromOffset.toNat).okOr .veryLargeNumber
  let toOffset ← (toUsize toOffset.toNat).okOr .veryLargeNumber
  let memory ← tryResize memory (← (Checked.add 64 toOffset size).okOr .outOfBounds)
  let temporaryBuffer ← (List.range size).mapM fun i => do
    let at_ ← (Checked.add 64 fromOffset i).okOr .outOfBounds
    pure (memory.getD at_ 0)
  let write (memory : Memory) (i : Nat) : Except VMError Memory := do
    let at_ ← (Checked.add 64 toOffset i).okOr .outOfBounds
    pure (if at_ < memory.length then memory.set at_ (temporaryBuffer.getD i 0) else memory)
  (List.range size).foldlM write memory

/-- The cost of `w` words of memory. -/
def wordsCost (w : Nat) : Nat := w * w / memoryExpansionQuotient + 3 * w

/-- `cost`: the total cost of `memorySize` bytes of memory. -/
def cost (memorySize : Nat) : Except VMError Nat := do
  let memorySizeWord :=
    (← (Checked.add 64 memorySize (wordSize - 1)).okOr (.outOfGas .memoryExpansionCostOverflow)) /
      wordSize
  let square ←
    (Checked.mul 64 memorySizeWord memorySizeWord).okOr (.outOfGas .memoryExpansionCostOverflow)
  let linear ← (Checked.mul 64 3 memorySizeWord).okOr (.outOfGas .memoryExpansionCostOverflow)
  (Checked.add 64 (square / memoryExpansionQuotient) linear).okOr
    (.outOfGas .memoryExpansionCostOverflow)

/-- `expansion_cost`: what growing memory from `currentMemorySize` to
`newMemorySize` bytes costs. -/
def expansionCost (newMemorySize currentMemorySize : Nat) : Except VMError Nat := do
  if newMemorySize ≤ currentMemorySize then return 0
  let newCost ← cost newMemorySize
  let currentCost ← cost currentMemorySize
  (Checked.sub newCost currentCost).okOr (.internal .arithmeticOperationUnderflow)

/-- `calculate_memory_size`: the memory an access of `size` bytes at
`offset` needs, rounded up to words; nothing for an empty access. -/
def calculateMemorySize (offset : U256) (size : Nat) : Except VMError Nat := do
  if size = 0 then return 0
  let offset ← (toUsize offset.toNat).okOr (.outOfGas .consumedGasOverflow)
  let stop ← (Checked.add 64 offset size).okOr .outOfBounds
  (Checked.nextMultipleOf 64 stop wordSize).okOr .outOfBounds

end Memory

/-! ## Costs and handlers -/

/-- `MLOAD_STATIC`. -/
def mloadStatic : Nat := 3
/-- `MSTORE_STATIC`. -/
def mstoreStatic : Nat := 3
/-- `MSTORE8_STATIC`. -/
def mstore8Static : Nat := 3
/-- `MCOPY_STATIC`. -/
def mcopyStatic : Nat := 3
/-- `MCOPY_DYNAMIC_BASE`. -/
def mcopyDynamicBase : Nat := 3

/-- `mem_expansion_behavior`: a static cost and the expansion. -/
def memExpansionBehavior (newMemorySize currentMemorySize staticCost : Nat) :
    Except VMError Nat := do
  let memoryExpansionCost ← Memory.expansionCost newMemorySize currentMemorySize
  let memoryExpansionCost ← (toUsize memoryExpansionCost).okOr .revertOpcode
  (Checked.add 64 staticCost memoryExpansionCost).okOr (.outOfGas .gasCostOverflow)

/-- `gas_cost::mload`. -/
def GasCost.mload (newMemorySize currentMemorySize : Nat) : Except VMError Nat :=
  memExpansionBehavior newMemorySize currentMemorySize mloadStatic

/-- `gas_cost::mstore`. -/
def GasCost.mstore (newMemorySize currentMemorySize : Nat) : Except VMError Nat :=
  memExpansionBehavior newMemorySize currentMemorySize mstoreStatic

/-- `gas_cost::mstore8`. -/
def GasCost.mstore8 (newMemorySize currentMemorySize : Nat) : Except VMError Nat :=
  memExpansionBehavior newMemorySize currentMemorySize mstore8Static

/-- `gas_cost::mcopy`: a static cost, three per word copied, and the
expansion to `newMemorySize`. -/
def GasCost.mcopy (newMemorySize currentMemorySize size : Nat) : Except VMError Nat := do
  let wordsCopied :=
    ((← (Checked.add 64 size wordSize).okOr (.outOfGas .gasCostOverflow)) - 1) / wordSize
  let memoryExpansionCost ← Memory.expansionCost newMemorySize currentMemorySize
  let memoryExpansionCost ← (toUsize memoryExpansionCost).okOr .veryLargeNumber
  let wordsCopied ← (toUsize wordsCopied).okOr .veryLargeNumber
  let copiedWordsCost ←
    (Checked.mul 64 mcopyDynamicBase wordsCopied).okOr (.outOfGas .gasCostOverflow)
  let staticAndCopy ←
    (Checked.add 64 mcopyStatic copiedWordsCost).okOr (.outOfGas .gasCostOverflow)
  (Checked.add 64 staticAndCopy memoryExpansionCost).okOr (.outOfGas .gasCostOverflow)

namespace CallFrame

/-- `VM::op_mload`. -/
def opMload (frame : CallFrame) : Except VMError CallFrame := do
  let (offset, stack) ← frame.stack.pop
  let newMemorySize ← Memory.calculateMemorySize offset wordSize
  let frame ← { frame with stack }.increaseConsumedGas
    (← GasCost.mload newMemorySize frame.memory.length)
  let (memory, value) ← Memory.loadWord frame.memory offset
  let stack ← frame.stack.push value
  pure { frame with memory, stack }

/-- The body `op_mstore` and `op_mstore8` share: the offset popped, the
gas for `size` bytes there charged, the value popped, and `bytes value`
stored at the offset. -/
def storeOpcode (gasCost : Nat → Nat → Except VMError Nat) (size : Nat) (bytes : U256 → Bytes)
    (frame : CallFrame) : Except VMError CallFrame := do
  let (offset, stack) ← frame.stack.pop
  let newMemorySize ← Memory.calculateMemorySize offset size
  let frame ← { frame with stack }.increaseConsumedGas
    (← gasCost newMemorySize frame.memory.length)
  let (value, stack) ← frame.stack.pop
  let memory ← Memory.tryStoreData frame.memory offset (bytes value)
  pure { frame with memory, stack }

/-- `VM::op_mstore`: the value's 32 big-endian bytes at the offset. -/
def opMstore : CallFrame → Except VMError CallFrame :=
  storeOpcode GasCost.mstore wordSize fun value => BigEndian.toBytes wordSize value.toNat

/-- `VM::op_mstore8`: the value's last byte at the offset. -/
def opMstore8 : CallFrame → Except VMError CallFrame :=
  storeOpcode GasCost.mstore8 1 fun value => (BigEndian.toBytes wordSize value.toNat).drop (wordSize - 1)

/-- `VM::op_mcopy`: charged for the larger of the two ranges. -/
def opMcopy (frame : CallFrame) : Except VMError CallFrame := do
  let (destOffset, stack) ← frame.stack.pop
  let (srcOffset, stack) ← stack.pop
  let (size, stack) ← stack.pop
  let size ← (toUsize size.toNat).okOr .veryLargeNumber
  let newMemorySizeForDest ← Memory.calculateMemorySize destOffset size
  let newMemorySizeForSrc ← Memory.calculateMemorySize srcOffset size
  let frame ← { frame with stack }.increaseConsumedGas
    (← GasCost.mcopy (max newMemorySizeForDest newMemorySizeForSrc) frame.memory.length size)
  let memory ← Memory.tryCopyWithin frame.memory srcOffset destOffset size
  pure { frame with memory }

end CallFrame

/-- The memory opcodes. -/
inductive MemoryOpcode where
  | mload
  | mstore
  | mstore8
  | mcopy
  deriving DecidableEq, Repr

namespace CallFrame

/-- `VM::execute`'s dispatch of a memory opcode to its handler. -/
def executeMemoryOpcode (frame : CallFrame) : MemoryOpcode → Except VMError CallFrame
  | .mload => frame.opMload
  | .mstore => frame.opMstore
  | .mstore8 => frame.opMstore8
  | .mcopy => frame.opMcopy

/-- Memory opcodes executed one after the other, to the first that fails. -/
def runMemoryOpcodes (frame : CallFrame) : List MemoryOpcode → Except VMError CallFrame
  | [] => .ok frame
  | op :: ops => do (← frame.executeMemoryOpcode op).runMemoryOpcodes ops

end CallFrame

/-! ## What the memory functions do

With memory of whole words, which every handler keeps, `try_resize` appends
zeros up to the round-up of the size asked for (`grow`), a store
overwrites bytes in place (`write`), and `try_copy_within` is a `memmove`
of the grown memory. -/

namespace Memory

/-- The memory `try_resize` leaves when memory is whole words: zeros
appended up to the round-up of `n`, if that is longer. -/
def grow (memory : Memory) (n : Nat) : Memory :=
  memory ++ List.replicate (if n = 0 then 0 else roundUp n wordSize - memory.length) 0

theorem length_grow (memory : Memory) (n : Nat) :
    (memory.grow n).length = if n = 0 then memory.length else max memory.length (roundUp n wordSize) := by
  unfold grow
  split_ifs <;> simp
  omega

theorem length_grow_of_ne {memory : Memory} {n : Nat} (hn : n ≠ 0) :
    (memory.grow n).length = max memory.length (roundUp n wordSize) := by
  rw [length_grow, if_neg hn]

theorem dvd_length_grow {memory : Memory} (hw : wordSize ∣ memory.length) (n : Nat) :
    wordSize ∣ (memory.grow n).length := by
  rw [length_grow]
  split_ifs
  · exact hw
  · rcases Nat.le_total memory.length (roundUp n wordSize) with h | h
    · rw [Nat.max_eq_right h]
      exact dvd_roundUp _ _
    · rw [Nat.max_eq_left h]
      exact hw

theorem tryResize_eq_ok {memory memory' : Memory} {n : Nat} (hw : wordSize ∣ memory.length)
    (h : tryResize memory n = .ok memory') : memory' = memory.grow n := by
  unfold tryResize at h
  by_cases hsmall : n = 0 ∨ n ≤ memory.length
  · -- nothing to grow: the round-up of `n` is within memory already
    rw [if_pos hsmall, Except.pure_eq_ok, Except.ok.injEq] at h
    subst h
    have hr : n ≠ 0 → roundUp n wordSize ≤ memory.length := fun hn =>
      roundUp_le (by decide) hw (by omega)
    unfold grow
    split_ifs with hn
    · simp
    · simp [Nat.sub_eq_zero_of_le (hr hn)]
  · rw [if_neg hsmall] at h
    obtain ⟨newSize, hnew, h⟩ := Except.bind_eq_ok.mp h
    cases hns : nextMultipleOf 64 n wordSize with
    | none =>
      rw [hns] at hnew
      cases hnew
    | some r =>
      rw [hns, Option.okOr_some, Except.ok.injEq] at hnew
      subst hnew
      have hr := nextMultipleOf_eq_some hns
      have hgt : r > memory.length := by
        have := le_roundUp (m := wordSize) (by decide) n
        omega
      rw [if_pos hgt, sub_of_le (by omega), Option.okOr_some, Except.ok_bind, Except.pure_eq_ok,
        Except.ok.injEq] at h
      rw [← h, grow, if_neg (by omega), hr]


theorem calculateMemorySize_eq_ok {offset : U256} {size n : Nat}
    (h : calculateMemorySize offset size = .ok n) :
    n = if size = 0 then 0 else roundUp (offset.toNat + size) wordSize := by
  unfold calculateMemorySize at h
  by_cases hs : size = 0
  · rw [if_pos hs, Except.pure_eq_ok, Except.ok.injEq] at h
    rw [if_pos hs, h]
  · rw [if_neg hs] at h
    rw [if_neg hs]
    obtain ⟨o, ho, h⟩ := Except.bind_eq_ok.mp h
    rw [Option.okOr_eq_ok, toUsize_eq_some] at ho
    obtain ⟨stop, hstop, h⟩ := Except.bind_eq_ok.mp h
    rw [Option.okOr_eq_ok, add_eq_some_iff] at hstop
    rw [Option.okOr_eq_ok] at h
    rw [nextMultipleOf_eq_some h, ← hstop.2, ho.2]

theorem le_length_grow (memory : Memory) {n : Nat} : n ≤ (memory.grow n).length := by
  rw [length_grow]
  split_ifs with hn
  · omega
  · exact Nat.le_trans (le_roundUp (by decide) n) (Nat.le_max_right _ _)

theorem loadRange_eq_ok {memory memory' : Memory} {offset : U256} {size : Nat} {bytes : Bytes}
    (hw : wordSize ∣ memory.length) (hs : size ≠ 0)
    (h : loadRange memory offset size = .ok (memory', bytes)) :
    memory' = memory.grow (offset.toNat + size) ∧
      bytes = (memory'.take (offset.toNat + size)).drop offset.toNat := by
  unfold loadRange at h
  rw [if_neg hs] at h
  obtain ⟨o, ho, h⟩ := Except.bind_eq_ok.mp h
  rw [Option.okOr_eq_ok, toUsize_eq_some] at ho
  obtain ⟨stop, hstop, h⟩ := Except.bind_eq_ok.mp h
  rw [Option.okOr_eq_ok, add_eq_some_iff] at hstop
  obtain ⟨grown, hgrown, h⟩ := Except.bind_eq_ok.mp h
  obtain ⟨stop', hstop', h⟩ := Except.bind_eq_ok.mp h
  rw [Option.okOr_eq_ok, add_eq_some_iff] at hstop'
  have hg := tryResize_eq_ok hw hgrown
  have hsame : stop' = stop := by omega
  rw [hsame] at h
  have hfit : stop ≤ grown.length := by
    rw [hg, ← hstop.2]
    exact le_length_grow memory
  rw [if_pos hfit, Except.pure_eq_ok, Except.ok.injEq, Prod.mk.injEq] at h
  obtain ⟨rfl, rfl⟩ := h
  rw [hg, ho.2, hstop.2]
  exact ⟨rfl, rfl⟩

/-- `data` written over the bytes at `offset`. -/
def write (memory : Memory) (offset : Nat) (data : Bytes) : Memory :=
  memory.take offset ++ data ++ memory.drop (offset + data.length)

theorem length_write {memory : Memory} {offset : Nat} {data : Bytes}
    (h : offset + data.length ≤ memory.length) : (memory.write offset data).length = memory.length := by
  simp only [write, List.length_append, List.length_take, List.length_drop]
  omega

theorem tryStore_eq_ok {memory memory' : Memory} {data : Bytes} {atOffset : U256} (hd : data ≠ [])
    (h : tryStore memory data atOffset data.length = .ok memory') :
    atOffset.toNat + data.length ≤ memory.length ∧ memory' = memory.write atOffset.toNat data := by
  unfold tryStore at h
  rw [if_neg (by simpa using hd)] at h
  obtain ⟨o, ho, h⟩ := Except.bind_eq_ok.mp h
  rw [Option.okOr_eq_ok, toUsize_eq_some] at ho
  obtain ⟨stop, hstop, h⟩ := Except.bind_eq_ok.mp h
  rw [Option.okOr_eq_ok, add_eq_some_iff] at hstop
  by_cases hfit : stop ≤ memory.length
  · rw [if_pos hfit, Except.pure_eq_ok, Except.ok.injEq, List.take_length] at h
    rw [ho.2]
    exact ⟨by omega, h.symm⟩
  · rw [if_neg hfit] at h
    cases h

theorem tryStoreData_eq_ok {memory memory' : Memory} {offset : U256} {data : Bytes}
    (hw : wordSize ∣ memory.length) (hd : data ≠ [])
    (h : tryStoreData memory offset data = .ok memory') :
    memory' = (memory.grow (offset.toNat + data.length)).write offset.toNat data := by
  unfold tryStoreData at h
  obtain ⟨n, hn, h⟩ := Except.bind_eq_ok.mp h
  rw [Option.okOr_eq_ok, add_eq_some_iff] at hn
  obtain ⟨n', hn', h⟩ := Except.bind_eq_ok.mp h
  rw [Option.okOr_eq_ok, toUsize_eq_some] at hn'
  obtain ⟨grown, hgrown, h⟩ := Except.bind_eq_ok.mp h
  rw [tryResize_eq_ok hw hgrown, ← hn'.2, ← hn.2] at h
  exact (tryStore_eq_ok hd h).2

/-- `memmove` within `memory`: the `size` bytes at `src` (zero past the end)
written at `dst`, as if read all before any is written. -/
def memmove (memory : Memory) (src dst size : Nat) : Memory :=
  memory.take dst ++ (List.range size).map (fun i => memory.getD (src + i) 0) ++
    memory.drop (dst + size)

theorem length_memmove {memory : Memory} {src dst size : Nat} (h : dst + size ≤ memory.length) :
    (memory.memmove src dst size).length = memory.length := by
  simp only [memmove, List.length_append, List.length_take, List.length_map, List.length_range,
    List.length_drop]
  omega

theorem foldlM_write_range {memory : Memory} {dst : Nat} {buffer : Bytes} {k : Nat}
    (hk : k ≤ buffer.length) (hfit : dst + buffer.length ≤ memory.length)
    (hw : dst + buffer.length < 2 ^ 64) :
    (List.range k).foldlM (fun (m : Memory) i => do
        let at_ ← (add 64 dst i).okOr VMError.outOfBounds
        pure (if at_ < m.length then m.set at_ (buffer.getD i 0) else m)) memory =
      .ok (memory.take dst ++ buffer.take k ++ memory.drop (dst + k)) := by
  induction k with
  | zero => simp
  | succ k ih =>
    rw [Except.foldlM_range_succ, ih (by omega), Except.ok_bind, add_of_lt (by omega),
      Option.okOr_some, Except.ok_bind]
    have hlen : (memory.take dst ++ buffer.take k).length = dst + k := by
      simp only [List.length_append, List.length_take]
      omega
    have hin : dst + k < (memory.take dst ++ buffer.take k ++ memory.drop (dst + k)).length := by
      simp only [List.length_append, List.length_take, List.length_drop]
      omega
    rw [if_pos hin, List.set_append_right _ _ (by omega), hlen, Nat.sub_self,
      List.drop_eq_getElem_cons (by omega), List.set_cons_zero,
      List.getD_eq_getElem _ _ (by omega), @List.take_add_one _ buffer k,
      List.getElem?_eq_getElem (by omega), Option.toList_some]
    simp only [List.append_assoc, List.cons_append, Nat.add_assoc]
    rfl

theorem tryCopyWithin_eq_ok {memory memory' : Memory} {src dst : U256} {size : Nat}
    (hw : wordSize ∣ memory.length) (hs : size ≠ 0)
    (h : tryCopyWithin memory src dst size = .ok memory') :
    memory' = (memory.grow (dst.toNat + size)).memmove src.toNat dst.toNat size := by
  unfold tryCopyWithin at h
  rw [if_neg hs] at h
  obtain ⟨f, hf, h⟩ := Except.bind_eq_ok.mp h
  rw [Option.okOr_eq_ok, toUsize_eq_some] at hf
  obtain ⟨t, ht, h⟩ := Except.bind_eq_ok.mp h
  rw [Option.okOr_eq_ok, toUsize_eq_some] at ht
  obtain ⟨stop, hstop, h⟩ := Except.bind_eq_ok.mp h
  rw [Option.okOr_eq_ok, add_eq_some_iff] at hstop
  obtain ⟨grown, hgrown, h⟩ := Except.bind_eq_ok.mp h
  obtain ⟨buffer, hbuffer, h⟩ := Except.bind_eq_ok.mp h
  have hg : grown = memory.grow (dst.toNat + size) := by
    rw [tryResize_eq_ok hw hgrown, ← hstop.2, ht.2]
  -- the read loop: every byte of the source, read before anything is written
  have hb : buffer = (List.range size).map fun i => grown.getD (f + i) 0 := by
    refine Except.mapM_eq_ok (fun i b hi => ?_) hbuffer
    obtain ⟨at_, hat, hi⟩ := Except.bind_eq_ok.mp hi
    rw [Option.okOr_eq_ok, add_eq_some_iff] at hat
    rw [Except.pure_eq_ok, Except.ok.injEq] at hi
    rw [← hi, ← hat.2]
  have hblen : buffer.length = size := by rw [hb, List.length_map, List.length_range]
  have hfit : t + buffer.length ≤ grown.length := by
    rw [hblen, hg, ← ht.2]
    exact le_length_grow memory
  dsimp only at h
  rw [← hblen, foldlM_write_range (Nat.le_refl _) hfit (by omega), Except.ok.injEq] at h
  rw [← h, hblen, List.take_of_length_le (Nat.le_of_eq hblen), hb, memmove, ← hg, hf.2, ht.2]

end Memory

/-! ## Costs

`cost` is `wordsCost` of the words the size occupies; between sizes of
whole words, `expansion_cost` is the difference of the two costs. -/

namespace Memory

theorem cost_eq_ok {n c : Nat} (h : cost n = .ok c) : c = wordsCost ((n + (wordSize - 1)) / wordSize) := by
  unfold cost at h
  obtain ⟨s, hs, h⟩ := Except.bind_eq_ok.mp h
  rw [Option.okOr_eq_ok, add_eq_some_iff] at hs
  obtain ⟨square, hsq, h⟩ := Except.bind_eq_ok.mp h
  rw [Option.okOr_eq_ok, mul_eq_some_iff] at hsq
  obtain ⟨linear, hlin, h⟩ := Except.bind_eq_ok.mp h
  rw [Option.okOr_eq_ok, mul_eq_some_iff] at hlin
  rw [Option.okOr_eq_ok, add_eq_some_iff] at h
  rw [← h.2, ← hsq.2, ← hlin.2, ← hs.2]
  rfl

theorem wordsCost_mono {a b : Nat} (h : a ≤ b) : wordsCost a ≤ wordsCost b := by
  unfold wordsCost
  have hsq : a * a / memoryExpansionQuotient ≤ b * b / memoryExpansionQuotient :=
    Nat.div_le_div_right (Nat.mul_le_mul h h)
  omega

theorem words_of_dvd {n : Nat} (h : wordSize ∣ n) : (n + (wordSize - 1)) / wordSize = n / wordSize := by
  obtain ⟨k, rfl⟩ := h
  unfold wordSize
  omega

theorem expansionCost_eq_ok {n m c : Nat} (h : expansionCost n m = .ok c) :
    c = if n ≤ m then 0 else
      wordsCost ((n + (wordSize - 1)) / wordSize) - wordsCost ((m + (wordSize - 1)) / wordSize) := by
  unfold expansionCost at h
  by_cases hnm : n ≤ m
  · rw [if_pos hnm, Except.pure_eq_ok, Except.ok.injEq] at h
    rw [if_pos hnm, h]
  · rw [if_neg hnm] at h ⊢
    obtain ⟨cn, hcn, h⟩ := Except.bind_eq_ok.mp h
    obtain ⟨cm, hcm, h⟩ := Except.bind_eq_ok.mp h
    rw [Option.okOr_eq_ok, sub_eq_some_iff] at h
    rw [← h.2, cost_eq_ok hcn, cost_eq_ok hcm]

theorem expansionCost_words {n m c : Nat} (hn : wordSize ∣ n) (hm : wordSize ∣ m)
    (h : expansionCost n m = .ok c) : c + wordsCost (m / wordSize) = wordsCost (max m n / wordSize) := by
  rw [expansionCost_eq_ok h, words_of_dvd hn, words_of_dvd hm]
  by_cases hnm : n ≤ m
  · rw [if_pos hnm, Nat.max_eq_left hnm, Nat.zero_add]
  · rw [if_neg hnm, Nat.max_eq_right (by omega)]
    have : wordsCost (m / wordSize) ≤ wordsCost (n / wordSize) :=
      wordsCost_mono (Nat.div_le_div_right (by omega))
    omega

end Memory

theorem memExpansionBehavior_eq_ok {n m s g : Nat} (h : memExpansionBehavior n m s = .ok g) :
    ∃ c, Memory.expansionCost n m = .ok c ∧ g = s + c := by
  unfold memExpansionBehavior at h
  obtain ⟨c, hc, h⟩ := Except.bind_eq_ok.mp h
  obtain ⟨c', hc', h⟩ := Except.bind_eq_ok.mp h
  rw [Option.okOr_eq_ok, toUsize_eq_some] at hc'
  rw [Option.okOr_eq_ok, add_eq_some_iff] at h
  exact ⟨c, hc, by rw [← h.2, ← hc'.2]⟩

theorem GasCost.mcopy_eq_ok {n m size g : Nat} (h : GasCost.mcopy n m size = .ok g) :
    ∃ c, Memory.expansionCost n m = .ok c ∧
      g = mcopyStatic + mcopyDynamicBase * ((size + wordSize - 1) / wordSize) + c := by
  unfold GasCost.mcopy at h
  obtain ⟨t, ht, h⟩ := Except.bind_eq_ok.mp h
  rw [Option.okOr_eq_ok, add_eq_some_iff] at ht
  obtain ⟨c, hc, h⟩ := Except.bind_eq_ok.mp h
  obtain ⟨c', hc', h⟩ := Except.bind_eq_ok.mp h
  rw [Option.okOr_eq_ok, toUsize_eq_some] at hc'
  obtain ⟨k, hk, h⟩ := Except.bind_eq_ok.mp h
  rw [Option.okOr_eq_ok, toUsize_eq_some] at hk
  obtain ⟨d, hd, h⟩ := Except.bind_eq_ok.mp h
  rw [Option.okOr_eq_ok, mul_eq_some_iff] at hd
  obtain ⟨e, he, h⟩ := Except.bind_eq_ok.mp h
  rw [Option.okOr_eq_ok, add_eq_some_iff] at he
  rw [Option.okOr_eq_ok, add_eq_some_iff] at h
  refine ⟨c, hc, ?_⟩
  rw [← h.2, ← he.2, ← hd.2, ← hk.2, ← hc'.2, ← ht.2]

/-! ## Handlers -/

namespace CallFrame

open Memory

theorem charge_eq_ok {frame frame' : CallFrame} {n s g : Nat}
    (h : frame.increaseConsumedGas g = .ok frame') (hw : wordSize ∣ frame.memory.length)
    (hn : wordSize ∣ n) (hg : memExpansionBehavior n frame.memory.length s = .ok g) :
    frame'.gasUsed + wordsCost (frame.memory.length / wordSize) =
        frame.gasUsed + s + wordsCost (max frame.memory.length n / wordSize) ∧
      frame' = { frame with gasUsed := frame'.gasUsed } := by
  obtain ⟨c, hc, rfl⟩ := memExpansionBehavior_eq_ok hg
  have hcost := expansionCost_words hn hw hc
  obtain ⟨-, -, rfl⟩ := increaseConsumedGas_eq_ok.mp h
  exact ⟨by simp only; omega, rfl⟩

theorem opMload_eq_ok {frame frame' : CallFrame} (hw : wordSize ∣ frame.memory.length)
    (h : frame.opMload = .ok frame') :
    ∃ offset rest, frame.stack.stack = offset :: rest ∧
      frame'.memory = frame.memory.grow (offset.toNat + wordSize) ∧
      frame'.gasUsed + wordsCost (frame.memory.length / wordSize) =
        frame.gasUsed + mloadStatic + wordsCost (frame'.memory.length / wordSize) ∧
      frame'.stack.stack = BitVec.ofNat 256 (BigEndian.ofBytes
        ((frame'.memory.take (offset.toNat + wordSize)).drop offset.toNat)) :: rest := by
  unfold opMload at h
  obtain ⟨⟨offset, stack⟩, hpop, h⟩ := Except.bind_eq_ok.mp h
  obtain ⟨n, hn, h⟩ := Except.bind_eq_ok.mp h
  obtain ⟨g, hg, h⟩ := Except.bind_eq_ok.mp h
  obtain ⟨frame₁, hframe₁, h⟩ := Except.bind_eq_ok.mp h
  obtain ⟨⟨memory, value⟩, hload, h⟩ := Except.bind_eq_ok.mp h
  obtain ⟨stack', hpush, h⟩ := Except.bind_eq_ok.mp h
  rw [Except.pure_eq_ok, Except.ok.injEq] at h
  subst h
  have hn' : n = roundUp (offset.toNat + wordSize) wordSize := by
    rw [calculateMemorySize_eq_ok hn, if_neg (by decide)]
  obtain ⟨hgas, hframe₁eq⟩ :=
    charge_eq_ok hframe₁ hw (hn' ▸ dvd_roundUp _ _) hg
  rw [hframe₁eq] at hload hpush ⊢
  obtain ⟨⟨memory', bytes⟩, hrange, hmv⟩ := Except.map_eq_ok.mp hload
  rw [Prod.mk.injEq] at hmv
  obtain ⟨rfl, rfl⟩ := hmv
  obtain ⟨hmem, hbytes⟩ := loadRange_eq_ok hw (by decide) hrange
  refine ⟨offset, stack.stack, Stack.pop_eq_ok.mp hpop, hmem, ?_, ?_⟩
  · rw [hmem, length_grow_of_ne (by unfold wordSize; omega), ← hn']
    exact hgas
  · rw [Stack.push_eq_ok hpush, hbytes]

theorem storeOpcode_eq_ok {gasCost : Nat → Nat → Except VMError Nat} {s size : Nat}
    {bytes : U256 → Bytes} (hcost : ∀ n c, gasCost n c = memExpansionBehavior n c s)
    (hsize : size ≠ 0) (hbytes : ∀ value, (bytes value).length = size)
    {frame frame' : CallFrame} (hw : wordSize ∣ frame.memory.length)
    (h : storeOpcode gasCost size bytes frame = .ok frame') :
    ∃ offset value rest, frame.stack.stack = offset :: value :: rest ∧
      frame'.memory = (frame.memory.grow (offset.toNat + size)).write offset.toNat (bytes value) ∧
      frame'.memory.length = (frame.memory.grow (offset.toNat + size)).length ∧
      frame'.gasUsed + wordsCost (frame.memory.length / wordSize) =
        frame.gasUsed + s + wordsCost (frame'.memory.length / wordSize) ∧
      frame'.stack.stack = rest := by
  unfold storeOpcode at h
  obtain ⟨⟨offset, stack⟩, hpop, h⟩ := Except.bind_eq_ok.mp h
  obtain ⟨n, hn, h⟩ := Except.bind_eq_ok.mp h
  obtain ⟨g, hg, h⟩ := Except.bind_eq_ok.mp h
  obtain ⟨frame₁, hframe₁, h⟩ := Except.bind_eq_ok.mp h
  obtain ⟨⟨value, stack'⟩, hpop', h⟩ := Except.bind_eq_ok.mp h
  obtain ⟨memory, hstore, h⟩ := Except.bind_eq_ok.mp h
  rw [Except.pure_eq_ok, Except.ok.injEq] at h
  subst h
  have hn' : n = roundUp (offset.toNat + size) wordSize := by
    rw [calculateMemorySize_eq_ok hn, if_neg hsize]
  rw [hcost] at hg
  obtain ⟨hgas, hframe₁eq⟩ :=
    charge_eq_ok hframe₁ hw (hn' ▸ dvd_roundUp _ _) hg
  rw [hframe₁eq] at hpop' hstore ⊢
  have hne : bytes value ≠ [] := by
    rw [← List.length_pos_iff, hbytes]
    omega
  have hstored := tryStoreData_eq_ok hw hne hstore
  rw [hbytes] at hstored
  have hlen : memory.length = (frame.memory.grow (offset.toNat + size)).length := by
    rw [hstored, length_write (by rw [hbytes]; exact le_length_grow _)]
  refine ⟨offset, value, stack'.stack, ?_, hstored, hlen, ?_, rfl⟩
  · rw [Stack.pop_eq_ok.mp hpop, Stack.pop_eq_ok.mp hpop']
  · rw [hlen, length_grow_of_ne (by omega), ← hn']
    exact hgas

theorem opMstore_eq_ok {frame frame' : CallFrame} (hw : wordSize ∣ frame.memory.length)
    (h : frame.opMstore = .ok frame') :
    ∃ offset value rest, frame.stack.stack = offset :: value :: rest ∧
      frame'.memory = (frame.memory.grow (offset.toNat + wordSize)).write offset.toNat
        (BigEndian.toBytes wordSize value.toNat) ∧
      frame'.memory.length = (frame.memory.grow (offset.toNat + wordSize)).length ∧
      frame'.gasUsed + wordsCost (frame.memory.length / wordSize) =
        frame.gasUsed + mstoreStatic + wordsCost (frame'.memory.length / wordSize) ∧
      frame'.stack.stack = rest :=
  storeOpcode_eq_ok (fun _ _ => rfl) (by decide) (fun _ => BigEndian.length_toBytes _ _) hw h

theorem opMstore8_eq_ok {frame frame' : CallFrame} (hw : wordSize ∣ frame.memory.length)
    (h : frame.opMstore8 = .ok frame') :
    ∃ offset value rest, frame.stack.stack = offset :: value :: rest ∧
      frame'.memory = (frame.memory.grow (offset.toNat + 1)).write offset.toNat
        ((BigEndian.toBytes wordSize value.toNat).drop (wordSize - 1)) ∧
      frame'.memory.length = (frame.memory.grow (offset.toNat + 1)).length ∧
      frame'.gasUsed + wordsCost (frame.memory.length / wordSize) =
        frame.gasUsed + mstore8Static + wordsCost (frame'.memory.length / wordSize) ∧
      frame'.stack.stack = rest :=
  storeOpcode_eq_ok (fun _ _ => rfl) (by decide) (fun _ => by simp [wordSize]) hw h

theorem opMcopy_eq_ok {frame frame' : CallFrame} (hw : wordSize ∣ frame.memory.length)
    (h : frame.opMcopy = .ok frame') :
    ∃ dest src size rest, frame.stack.stack = dest :: src :: size :: rest ∧
      frame'.stack.stack = rest ∧
      (size.toNat = 0 → frame'.memory = frame.memory ∧ frame'.gasUsed = frame.gasUsed + mcopyStatic) ∧
      (size.toNat ≠ 0 →
        frame'.memory = (frame.memory.grow (dest.toNat + size.toNat)).memmove src.toNat dest.toNat
          size.toNat ∧
        frame'.gasUsed + wordsCost (frame.memory.length / wordSize) =
          frame.gasUsed + mcopyStatic + mcopyDynamicBase * ((size.toNat + wordSize - 1) / wordSize) +
            wordsCost (max frame.memory.length (max (roundUp (dest.toNat + size.toNat) wordSize)
              (roundUp (src.toNat + size.toNat) wordSize)) / wordSize)) := by
  unfold opMcopy at h
  obtain ⟨⟨dest, stack₁⟩, hpop₁, h⟩ := Except.bind_eq_ok.mp h
  obtain ⟨⟨src, stack₂⟩, hpop₂, h⟩ := Except.bind_eq_ok.mp h
  obtain ⟨⟨size, stack₃⟩, hpop₃, h⟩ := Except.bind_eq_ok.mp h
  obtain ⟨k, hk, h⟩ := Except.bind_eq_ok.mp h
  rw [Option.okOr_eq_ok, toUsize_eq_some] at hk
  obtain ⟨-, rfl⟩ := hk
  obtain ⟨nd, hnd, h⟩ := Except.bind_eq_ok.mp h
  obtain ⟨ns, hns, h⟩ := Except.bind_eq_ok.mp h
  obtain ⟨g, hg, h⟩ := Except.bind_eq_ok.mp h
  obtain ⟨frame₁, hframe₁, h⟩ := Except.bind_eq_ok.mp h
  obtain ⟨memory, hcopy, h⟩ := Except.bind_eq_ok.mp h
  rw [Except.pure_eq_ok, Except.ok.injEq] at h
  subst h
  obtain ⟨c, hc, rfl⟩ := GasCost.mcopy_eq_ok hg
  obtain ⟨-, -, rfl⟩ := increaseConsumedGas_eq_ok.mp hframe₁
  refine ⟨dest, src, size, stack₃.stack, ?_, rfl, fun hz => ?_, fun hz => ?_⟩
  · rw [Stack.pop_eq_ok.mp hpop₁, Stack.pop_eq_ok.mp hpop₂, Stack.pop_eq_ok.mp hpop₃]
  · -- nothing to copy: no growth, and the static charge only
    rw [calculateMemorySize_eq_ok hnd, if_pos hz, calculateMemorySize_eq_ok hns, if_pos hz] at hc
    have hc0 : c = 0 := by
      rw [expansionCost_eq_ok hc, if_pos (by simp)]
    unfold tryCopyWithin at hcopy
    rw [if_pos hz, Except.pure_eq_ok, Except.ok.injEq] at hcopy
    refine ⟨hcopy.symm, ?_⟩
    simp [hz, hc0, mcopyDynamicBase, wordSize]
  · rw [calculateMemorySize_eq_ok hnd, if_neg hz] at hc
    rw [calculateMemorySize_eq_ok hns, if_neg hz] at hc
    have hmax : wordSize ∣ max (roundUp (dest.toNat + size.toNat) wordSize)
        (roundUp (src.toNat + size.toNat) wordSize) := by
      rcases Nat.le_total (roundUp (dest.toNat + size.toNat) wordSize)
        (roundUp (src.toNat + size.toNat) wordSize) with hle | hle
      · rw [Nat.max_eq_right hle]
        exact dvd_roundUp _ _
      · rw [Nat.max_eq_left hle]
        exact dvd_roundUp _ _
    have hcost := expansionCost_words hmax hw hc
    refine ⟨tryCopyWithin_eq_ok hw hz hcopy, ?_⟩
    simp only
    omega

end CallFrame

/-! ## Runs

Along any run of the memory opcodes memory stays whole words.  Along a run
of `MLOAD`, `MSTORE` and `MSTORE8`, the gas used grows by the three static
units of each and by exactly what the memory it ends with costs more than
the memory it started with: from empty memory, the charges for growth add
up to `3·w + w²/512` for the `w` words there are. -/

namespace CallFrame

open Memory

theorem dvd_length_executeMemoryOpcode {frame frame' : CallFrame} {op : MemoryOpcode}
    (hw : wordSize ∣ frame.memory.length) (h : frame.executeMemoryOpcode op = .ok frame') :
    wordSize ∣ frame'.memory.length := by
  cases op with
  | mload =>
    obtain ⟨_, _, _, hm, -⟩ := opMload_eq_ok hw h
    rw [hm]
    exact dvd_length_grow hw _
  | mstore =>
    obtain ⟨_, _, _, _, -, hlen, -⟩ := opMstore_eq_ok hw h
    rw [hlen]
    exact dvd_length_grow hw _
  | mstore8 =>
    obtain ⟨_, _, _, _, -, hlen, -⟩ := opMstore8_eq_ok hw h
    rw [hlen]
    exact dvd_length_grow hw _
  | mcopy =>
    obtain ⟨dest, src, size, _, -, -, hzero, hcopy⟩ := opMcopy_eq_ok hw h
    by_cases hz : size.toNat = 0
    · rw [(hzero hz).1]
      exact hw
    · rw [(hcopy hz).1, length_memmove (le_length_grow _)]
      exact dvd_length_grow hw _

theorem executeMemoryOpcode_accounted {frame frame' : CallFrame} {op : MemoryOpcode}
    (hop : op ≠ .mcopy) (hw : wordSize ∣ frame.memory.length)
    (h : frame.executeMemoryOpcode op = .ok frame') :
    frame'.gasUsed + wordsCost (frame.memory.length / wordSize) =
      frame.gasUsed + 3 + wordsCost (frame'.memory.length / wordSize) := by
  cases op with
  | mload => exact (opMload_eq_ok hw h).choose_spec.choose_spec.2.2.1
  | mstore => exact (opMstore_eq_ok hw h).choose_spec.choose_spec.choose_spec.2.2.2.1
  | mstore8 => exact (opMstore8_eq_ok hw h).choose_spec.choose_spec.choose_spec.2.2.2.1
  | mcopy => exact absurd rfl hop

theorem runMemoryOpcodes_cons {frame frame' : CallFrame} {op : MemoryOpcode}
    {ops : List MemoryOpcode} (h : frame.runMemoryOpcodes (op :: ops) = .ok frame') :
    ∃ frame₁, frame.executeMemoryOpcode op = .ok frame₁ ∧ frame₁.runMemoryOpcodes ops = .ok frame' :=
  Except.bind_eq_ok.mp h

/-- Every run of memory opcodes keeps memory whole words, and along a run
without `MCOPY` the charges for growth add up to the growth of the memory's
cost: three gas a step besides. -/
theorem runMemoryOpcodes_accounted {ops : List MemoryOpcode} {frame frame' : CallFrame}
    (hw : wordSize ∣ frame.memory.length) (h : frame.runMemoryOpcodes ops = .ok frame') :
    wordSize ∣ frame'.memory.length ∧
      (MemoryOpcode.mcopy ∉ ops → frame'.gasUsed + wordsCost (frame.memory.length / wordSize) =
        frame.gasUsed + 3 * ops.length + wordsCost (frame'.memory.length / wordSize)) := by
  -- induction on the run; whole words is what lets each step account for itself
  induction ops generalizing frame with
  | nil =>
    cases h
    exact ⟨hw, fun _ => by simp⟩
  | cons op ops ih =>
    obtain ⟨frame₁, h₁, h⟩ := runMemoryOpcodes_cons h
    obtain ⟨hw', hrest⟩ := ih (dvd_length_executeMemoryOpcode hw h₁) h
    refine ⟨hw', fun hops => ?_⟩
    have hop : op ≠ .mcopy := fun he => hops (he ▸ List.mem_cons_self)
    have hstep := executeMemoryOpcode_accounted hop hw h₁
    have htail := hrest (fun hm => hops (List.mem_cons_of_mem _ hm))
    simp only [List.length_cons]
    omega

set_option maxRecDepth 8192 in
/-- From empty memory, `MSTORE` of 7 at offset 0 and `MLOAD` of it back:
one word of memory, paid for once, and three gas a step. -/
theorem runMemoryOpcodes_store_load :
    let frame : CallFrame :=
      { gasLimit := 100, gasUsed := 0, msgSender := List.Vector.replicate 20 0,
        toAddress := List.Vector.replicate 20 0, stack := ⟨[0, 7, 0]⟩, memory := [],
        isStatic := false }
    let frame' : CallFrame :=
      { frame with gasUsed := 9, stack := ⟨[7]⟩, memory := List.replicate 31 0 ++ [7] }
    frame.runMemoryOpcodes [.mstore, .mload] = .ok frame' ∧
      wordSize ∣ frame'.memory.length ∧
      (MemoryOpcode.mcopy ∉ [MemoryOpcode.mstore, .mload] →
        frame'.gasUsed + wordsCost (frame.memory.length / wordSize) =
          frame.gasUsed + 3 * [MemoryOpcode.mstore, .mload].length +
            wordsCost (frame'.memory.length / wordSize)) := by
  intro frame frame'
  have h : frame.runMemoryOpcodes [.mstore, .mload] = .ok frame' := by
    simp only [frame, frame']
    rfl
  exact ⟨h, runMemoryOpcodes_accounted (dvd_zero _) h⟩

/-! ## `MCOPY` -/

/-- `MCOPY` pays for memory up to the end of its source range, but grows
memory to the end of its destination range only. -/
theorem opMcopy_charges_beyond_memory {frame frame' : CallFrame} {dest src size : U256}
    {rest : List U256} (hw : wordSize ∣ frame.memory.length)
    (hstack : frame.stack.stack = dest :: src :: size :: rest) (hsize : size.toNat ≠ 0)
    (h : frame.opMcopy = .ok frame') :
    frame'.memory.length = max frame.memory.length (roundUp (dest.toNat + size.toNat) wordSize) ∧
      frame'.gasUsed + wordsCost (frame.memory.length / wordSize) =
        frame.gasUsed + mcopyStatic + mcopyDynamicBase * ((size.toNat + wordSize - 1) / wordSize) +
          wordsCost (max frame.memory.length (max (roundUp (dest.toNat + size.toNat) wordSize)
            (roundUp (src.toNat + size.toNat) wordSize)) / wordSize) := by
  obtain ⟨dest', src', size', rest', hstack', -, -, hcopy⟩ := opMcopy_eq_ok hw h
  rw [hstack] at hstack'
  obtain ⟨rfl, rfl, rfl, rfl⟩ : dest = dest' ∧ src = src' ∧ size = size' ∧ rest = rest' := by
    simpa using hstack'
  obtain ⟨hmem, hgas⟩ := hcopy hsize
  refine ⟨?_, hgas⟩
  rw [hmem, length_memmove (le_length_grow _), length_grow_of_ne (by omega)]

set_option maxRecDepth 8192 in
/-- From empty memory, `MCOPY` of 32 bytes from offset 32 to offset 0
leaves one word of memory and is charged 6 for two words of it. -/
theorem opMcopy_uncovered_source :
    let frame : CallFrame :=
      { gasLimit := 100, gasUsed := 0, msgSender := List.Vector.replicate 20 0,
        toAddress := List.Vector.replicate 20 0, stack := ⟨[0, 32, 32]⟩, memory := [],
        isStatic := false }
    let frame' : CallFrame := { frame with gasUsed := 12, stack := ⟨[]⟩, memory := List.replicate 32 0 }
    frame.opMcopy = .ok frame' ∧
      (frame'.memory.length = max frame.memory.length (roundUp (0 + 32) wordSize) ∧
        frame'.gasUsed + wordsCost (frame.memory.length / wordSize) =
          frame.gasUsed + mcopyStatic + mcopyDynamicBase * ((32 + wordSize - 1) / wordSize) +
            wordsCost (max frame.memory.length (max (roundUp (0 + 32) wordSize)
              (roundUp (32 + 32) wordSize)) / wordSize)) := by
  intro frame frame'
  have h : frame.opMcopy = .ok frame' := by
    simp only [frame, frame']
    rfl
  exact ⟨h, opMcopy_charges_beyond_memory (dvd_zero _)
    (rfl : frame.stack.stack = [0, 32, 32]) (by decide) h⟩

end CallFrame

end Ethrex.Levm

