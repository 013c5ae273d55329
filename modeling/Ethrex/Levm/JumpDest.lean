/-
# `Ethrex.Levm.JumpDest` — valid jump destinations and the jumps that use them

`get_valid_jump_destinations` (`vm.rs`) scans the bytecode once: it
records the position of every `JUMPDEST` it stops at and steps over the
immediate data of every `PUSH1 ..= PUSH32`.  `CallFrame::new` keeps the
result (an empty set if the scan fails), and `VM::jump` accepts exactly the
destinations in it.

The positions the scan stops at are the instruction boundaries
(`Boundary`): the first byte, and after each instruction at a boundary,
the next one.  The scan returns exactly the `JUMPDEST` bytes at boundaries
(`getValidJumpDestinations_spec`); a `JUMPDEST` byte inside push data, a
truncated final push included, is not one.  `JUMP` and `JUMPI` then
succeed on those destinations and fail with an error on every other,
positions past the code and values above `usize::MAX` included
(`jump_destinations_exact`).

The one hypothesis is that the code is shorter than `2 ^ 63` bytes, the
most a Rust allocation holds; then no `usize` sum of the scan overflows.
-/
import Ethrex.Levm.CallFrame

namespace Ethrex.Levm

open Ethrex.Rlp (Bytes U256)
open Checked

/-! ## The scan -/

/-- `Opcode::JUMPDEST`. -/
def jumpdestOpcode : UInt8 := 0x5B

/-- Whether a byte's opcode is in `PUSH1 ..= PUSH32`: `Opcode::from` maps
each of `0x60 ..= 0x7f` to that push and every undefined byte to `INVALID`
(`0xfe`), and the derived order compares the opcodes' values. -/
def isPush (opcodeNumber : UInt8) : Bool := 0x60 ≤ opcodeNumber && opcodeNumber ≤ 0x7F

/-- The `while let` loop of `get_valid_jump_destinations`, from `pc`, with
the destinations found so far, for at most `fuel` more iterations. -/
def validJumpDestinationsLoop (code : Bytes) : Nat → Nat → List Nat → Except VMError (List Nat)
  | 0, _, validJumpDestinations => .ok validJumpDestinations
  | fuel + 1, pc, validJumpDestinations =>
    match code[pc]? with
    | none => .ok validJumpDestinations
    | some opcodeNumber => do
      let (pc, validJumpDestinations) ←
        if opcodeNumber = jumpdestOpcode then pure (pc, pc :: validJumpDestinations)
        else if isPush opcodeNumber then do
          -- skip the push's immediate data
          let sizeToPush ← (sub opcodeNumber.toNat 0x60).okOr (.internal .arithmeticOperationUnderflow)
          let skipLength ← (add 8 sizeToPush 1).okOr (.internal .arithmeticOperationOverflow)
          let pc ← (add 64 pc skipLength).okOr (.internal .arithmeticOperationOverflow)
          pure (pc, validJumpDestinations)
        else pure (pc, validJumpDestinations)
      let pc ← (add 64 pc 1).okOr (.internal .arithmeticOperationOverflow)
      validJumpDestinationsLoop code fuel pc validJumpDestinations

/-- `get_valid_jump_destinations`: every iteration moves past at least one
byte, so the loop runs at most once per byte and once more to stop. -/
def getValidJumpDestinations (code : Bytes) : Except VMError (List Nat) :=
  validJumpDestinationsLoop code (code.length + 1) 0 []

/-- The set `CallFrame::new` and `CallFrame::assign_bytecode` keep:
`get_valid_jump_destinations(..).unwrap_or_default()`. -/
def validJumpDestinationsOf (bytecode : Bytes) : List Nat :=
  match getValidJumpDestinations bytecode with
  | .ok validJumpDestinations => validJumpDestinations
  | .error _ => []

/-! ## Jumps -/

/-- `gas_cost::JUMP`. -/
def GasCost.jump : Nat := 8
/-- `gas_cost::JUMPI`. -/
def GasCost.jumpi : Nat := 10

/-- `VM::jump`: the new `pc`, when the address fits a `usize` and is a
valid destination. -/
def jump (validJumpDestinations : List Nat) (jumpAddress : U256) : Except VMError Nat := do
  let jumpAddressUsize ←
    (if jumpAddress.toNat < 2 ^ 64 then some jumpAddress.toNat else none).okOr .veryLargeNumber
  if jumpAddressUsize ∈ validJumpDestinations then pure jumpAddressUsize else throw .invalidJump

/-- `VM::op_jump`: the frame after the charge and the pop, and the new
`pc`. -/
def opJump (frame : CallFrame) (validJumpDestinations : List Nat) :
    Except VMError (CallFrame × Nat) := do
  let frame ← frame.increaseConsumedGas GasCost.jump
  let (jumpAddress, stack) ← frame.stack.pop
  let pc ← jump validJumpDestinations jumpAddress
  pure ({ frame with stack }, pc)

/-- `VM::op_jumpi`: both operands are popped before the charge; a zero
condition goes on to the next instruction. -/
def opJumpi (frame : CallFrame) (validJumpDestinations : List Nat) (pc : Nat) :
    Except VMError (CallFrame × Nat) := do
  let (jumpAddress, stack) ← frame.stack.pop
  let (condition, stack) ← stack.pop
  let frame ← { frame with stack }.increaseConsumedGas GasCost.jumpi
  if condition ≠ 0 then
    let pc ← jump validJumpDestinations jumpAddress
    pure (frame, pc)
  else
    let pc ← (add 64 pc 1).okOr (.internal .pcOverflowed)
    pure (frame, pc)

/-! ## Instruction boundaries -/

/-- The length of an instruction's immediate data: `n` bytes after
`PUSHn`, none after any other opcode. -/
def immediateSize (opcodeNumber : UInt8) : Nat :=
  if isPush opcodeNumber then opcodeNumber.toNat - 0x5F else 0

/-- The instruction boundaries of `code` from `start`: `start`, and the
position after every instruction that starts at a boundary. -/
inductive Boundary (code : Bytes) (start : Nat) : Nat → Prop
  | start : Boundary code start start
  | next {pc : Nat} {opcodeNumber : UInt8} : Boundary code start pc → code[pc]? = some opcodeNumber →
      Boundary code start (pc + 1 + immediateSize opcodeNumber)

/-- A valid jump destination: a `JUMPDEST` byte at an instruction boundary
of the code. -/
def IsJumpdest (code : Bytes) (p : Nat) : Prop := Boundary code 0 p ∧ code[p]? = some jumpdestOpcode

theorem isPush_iff (opcodeNumber : UInt8) :
    isPush opcodeNumber = true ↔ 0x60 ≤ opcodeNumber.toNat ∧ opcodeNumber.toNat ≤ 0x7F := by
  simp [isPush, UInt8.le_iff_toNat_le]

theorem immediateSize_le (opcodeNumber : UInt8) : immediateSize opcodeNumber ≤ 32 := by
  unfold immediateSize
  split
  · rename_i h
    have := (isPush_iff opcodeNumber).mp h
    omega
  · omega

theorem immediateSize_jumpdest : immediateSize jumpdestOpcode = 0 := rfl

namespace Boundary

variable {code : Bytes} {start p : Nat}

theorem head {opcodeNumber : UInt8} (hcode : code[start]? = some opcodeNumber)
    (h : Boundary code (start + 1 + immediateSize opcodeNumber) p) : Boundary code start p := by
  induction h with
  | start => exact .next .start hcode
  | next _ hpc ih => exact .next ih hpc

theorem iff_first : Boundary code start p ↔ p = start ∨ ∃ opcodeNumber,
    code[start]? = some opcodeNumber ∧ Boundary code (start + 1 + immediateSize opcodeNumber) p := by
  constructor
  · intro h
    induction h with
    | start => exact .inl rfl
    | next _ hpc ih =>
      rcases ih with rfl | ⟨b, hb, hrest⟩
      · exact .inr ⟨_, hpc, .start⟩
      · exact .inr ⟨b, hb, .next hrest hpc⟩
  · rintro (rfl | ⟨b, hb, hrest⟩)
    · exact .start
    · exact head hb hrest

theorem eq_of_none (hcode : code[start]? = none) (h : Boundary code start p) : p = start := by
  rcases iff_first.mp h with rfl | ⟨b, hb, -⟩
  · rfl
  · rw [hcode] at hb
    cases hb

end Boundary

/-! ## What the scan finds -/

section Scan

variable {code : Bytes}

theorem validJumpDestinationsLoop_some {fuel pc : Nat} {acc : List Nat} {opcodeNumber : UInt8}
    (hcode : code[pc]? = some opcodeNumber) (hpc : pc + 33 < 2 ^ 64) :
    validJumpDestinationsLoop code (fuel + 1) pc acc =
      validJumpDestinationsLoop code fuel (pc + 1 + immediateSize opcodeNumber)
        (if opcodeNumber = jumpdestOpcode then pc :: acc else acc) := by
  rw [validJumpDestinationsLoop, hcode]
  dsimp only
  have hsize := immediateSize_le opcodeNumber
  by_cases hj : opcodeNumber = jumpdestOpcode
  · subst hj
    simp [immediateSize_jumpdest, add_of_lt (show pc + 1 < 2 ^ 64 by omega)]
  · by_cases hp : isPush opcodeNumber = true
    · -- the data of `PUSHn` is `n` bytes: `opcode - 0x60 + 1`
      have hnat := (isPush_iff opcodeNumber).mp hp
      have himm : immediateSize opcodeNumber = opcodeNumber.toNat - 0x60 + 1 := by
        rw [immediateSize, if_pos hp]
        omega
      rw [if_neg hj, if_pos hp, sub_of_le (by omega), Option.okOr_some, Except.ok_bind,
        add_of_lt (show opcodeNumber.toNat - 0x60 + 1 < 2 ^ 8 by omega), Option.okOr_some,
        Except.ok_bind, add_of_lt (show pc + (opcodeNumber.toNat - 0x60 + 1) < 2 ^ 64 by omega),
        Option.okOr_some, Except.ok_bind, pure_bind]
      rw [add_of_lt (by omega), Option.okOr_some, Except.ok_bind, if_neg hj, himm, Nat.add_right_comm]
    · have himm : immediateSize opcodeNumber = 0 := by
        rw [immediateSize, if_neg hp]
      rw [if_neg hj, if_neg hp]
      simp [himm, if_neg hj, add_of_lt (show pc + 1 < 2 ^ 64 by omega)]

theorem validJumpDestinationsLoop_spec (hlen : code.length < 2 ^ 63) :
    ∀ (fuel pc : Nat) (acc : List Nat), code.length < fuel + pc → pc ≤ code.length + 32 →
      ∃ S, validJumpDestinationsLoop code fuel pc acc = .ok S ∧
        ∀ p, p ∈ S ↔ p ∈ acc ∨ (Boundary code pc p ∧ code[p]? = some jumpdestOpcode)
  | 0, pc, acc, hfuel, _ => by
    -- past the end of the code: the only boundary left holds no byte
    have hnone : code[pc]? = none := List.getElem?_eq_none (by omega)
    refine ⟨acc, rfl, fun p => ⟨.inl, ?_⟩⟩
    rintro (h | ⟨hb, hp⟩)
    · exact h
    · rw [Boundary.eq_of_none hnone hb, hnone] at hp
      cases hp
  | fuel + 1, pc, acc, hfuel, hpc => by
    cases hcode : code[pc]? with
    | none =>
      refine ⟨acc, by rw [validJumpDestinationsLoop, hcode], fun p => ⟨.inl, ?_⟩⟩
      rintro (h | ⟨hb, hp⟩)
      · exact h
      · rw [Boundary.eq_of_none hcode hb, hcode] at hp
        cases hp
    | some b =>
      have hlt : pc < code.length := by
        by_contra hge
        rw [List.getElem?_eq_none (by omega)] at hcode
        cases hcode
      have hsize := immediateSize_le b
      rw [validJumpDestinationsLoop_some hcode (by omega)]
      obtain ⟨S, hS, hmem⟩ := validJumpDestinationsLoop_spec hlen fuel (pc + 1 + immediateSize b)
        (if b = jumpdestOpcode then pc :: acc else acc) (by omega) (by omega)
      refine ⟨S, hS, fun p => ?_⟩
      rw [hmem p, show Boundary code pc p ↔ _ from Boundary.iff_first]
      -- the boundaries from `pc` are `pc`, which holds `b`, and those after it
      by_cases hp : p = pc
      · subst hp
        by_cases hj : b = jumpdestOpcode <;> simp [hj, hcode]
      · have hb : (∃ b', code[pc]? = some b' ∧ Boundary code (pc + 1 + immediateSize b') p) ↔
            Boundary code (pc + 1 + immediateSize b) p := by
          simp [hcode]
        by_cases hj : b = jumpdestOpcode <;> simp [hj, hp, hb]

/-- **The scan returns the `JUMPDEST` bytes at instruction boundaries.** -/
theorem getValidJumpDestinations_spec (hlen : code.length < 2 ^ 63) :
    ∃ S, getValidJumpDestinations code = .ok S ∧ ∀ p, p ∈ S ↔ IsJumpdest code p := by
  obtain ⟨S, hS, hmem⟩ := validJumpDestinationsLoop_spec hlen (code.length + 1) 0 [] (by omega)
    (by omega)
  exact ⟨S, hS, fun p => by simpa [IsJumpdest] using hmem p⟩

theorem mem_validJumpDestinationsOf (hlen : code.length < 2 ^ 63) (p : Nat) :
    p ∈ validJumpDestinationsOf code ↔ IsJumpdest code p := by
  obtain ⟨S, hS, hmem⟩ := getValidJumpDestinations_spec hlen
  rw [validJumpDestinationsOf, hS]
  exact hmem p

theorem IsJumpdest.lt_length {p : Nat} (h : IsJumpdest code p) : p < code.length :=
  (List.getElem?_eq_some_iff.mp h.2).1

end Scan

/-! ## Jumps to the destinations -/

section Jumps

variable {validJumpDestinations : List Nat}

theorem jump_eq_ok_iff {jumpAddress : U256} {pc : Nat} :
    jump validJumpDestinations jumpAddress = .ok pc ↔
      jumpAddress.toNat < 2 ^ 64 ∧ jumpAddress.toNat ∈ validJumpDestinations ∧ pc = jumpAddress.toNat := by
  unfold jump
  by_cases hw : jumpAddress.toNat < 2 ^ 64
  · rw [if_pos hw, Option.okOr_some, Except.ok_bind]
    by_cases hm : jumpAddress.toNat ∈ validJumpDestinations
    · rw [if_pos hm]
      exact ⟨fun h => ⟨hw, hm, (Except.ok.inj h).symm⟩, fun ⟨_, _, h⟩ => h ▸ rfl⟩
    · rw [if_neg hm]
      exact ⟨fun h => (nomatch h), fun ⟨_, h, _⟩ => absurd h hm⟩
  · rw [if_neg hw, Option.okOr_none, Except.error_bind]
    exact ⟨fun h => (nomatch h), fun ⟨h, _⟩ => absurd h hw⟩

theorem opJump_eq {frame frame' : CallFrame} {jumpAddress : U256} {rest : List U256}
    (hstack : frame.stack.stack = jumpAddress :: rest)
    (hgas : frame.increaseConsumedGas GasCost.jump = .ok frame') :
    opJump frame validJumpDestinations =
      (jump validJumpDestinations jumpAddress).map (fun pc => ({ frame' with stack := ⟨rest⟩ }, pc)) := by
  obtain ⟨-, -, rfl⟩ := CallFrame.increaseConsumedGas_eq_ok.mp hgas
  have hpop : ({ frame with gasUsed := frame.gasUsed + GasCost.jump } : CallFrame).stack.pop =
      .ok (jumpAddress, ⟨rest⟩) := by
    rw [Stack.pop_eq_ok]
    exact hstack
  rw [opJump, hgas, Except.ok_bind, hpop, Except.ok_bind]
  dsimp only
  cases jump validJumpDestinations jumpAddress <;> rfl

theorem opJumpi_eq {frame frame' : CallFrame} {jumpAddress condition : U256} {rest : List U256}
    {pc : Nat} (hstack : frame.stack.stack = jumpAddress :: condition :: rest)
    (hcondition : condition ≠ 0)
    (hgas : { frame with stack := ⟨rest⟩ }.increaseConsumedGas GasCost.jumpi = .ok frame') :
    opJumpi frame validJumpDestinations pc =
      (jump validJumpDestinations jumpAddress).map (fun pc => (frame', pc)) := by
  have hpop : frame.stack.pop = .ok (jumpAddress, ⟨condition :: rest⟩) := by
    rw [Stack.pop_eq_ok]
    exact hstack
  rw [opJumpi, hpop, Except.ok_bind]
  dsimp only
  rw [Stack.pop_cons, Except.ok_bind]
  dsimp only
  rw [hgas, Except.ok_bind, if_pos hcondition]
  cases jump validJumpDestinations jumpAddress <;> rfl

end Jumps

section Exact

variable {code : Bytes} (hlen : code.length < 2 ^ 63)
include hlen

theorem jump_of_isJumpdest {jumpAddress : U256} (h : IsJumpdest code jumpAddress.toNat) :
    jump (validJumpDestinationsOf code) jumpAddress = .ok jumpAddress.toNat := by
  have hlt := h.lt_length
  rw [jump_eq_ok_iff, mem_validJumpDestinationsOf hlen]
  exact ⟨by omega, h, rfl⟩

theorem jump_of_not_isJumpdest {jumpAddress : U256} (h : ¬ IsJumpdest code jumpAddress.toNat) :
    ∃ e, jump (validJumpDestinationsOf code) jumpAddress = .error e := by
  cases hj : jump (validJumpDestinationsOf code) jumpAddress with
  | error e => exact ⟨e, rfl⟩
  | ok pc =>
    obtain ⟨-, hmem, -⟩ := jump_eq_ok_iff.mp hj
    exact absurd ((mem_validJumpDestinationsOf hlen _).mp hmem) h

/-- **Jump destinations**: the scan returns the `JUMPDEST` bytes at
instruction boundaries, and a `JUMP`, or a `JUMPI` whose condition is not
zero, that has its operands and its gas goes to its destination when the
destination is one of them and halts with an error otherwise. -/
theorem jump_destinations_exact :
    (∃ S, getValidJumpDestinations code = .ok S ∧ ∀ p, p ∈ S ↔ IsJumpdest code p) ∧
    (∀ (frame frame' : CallFrame) (jumpAddress : U256) (rest : List U256),
      frame.stack.stack = jumpAddress :: rest → frame.increaseConsumedGas GasCost.jump = .ok frame' →
      (IsJumpdest code jumpAddress.toNat → opJump frame (validJumpDestinationsOf code) =
        .ok ({ frame' with stack := ⟨rest⟩ }, jumpAddress.toNat)) ∧
      (¬ IsJumpdest code jumpAddress.toNat →
        ∃ e, opJump frame (validJumpDestinationsOf code) = .error e)) ∧
    (∀ (frame frame' : CallFrame) (jumpAddress condition : U256) (rest : List U256) (pc : Nat),
      frame.stack.stack = jumpAddress :: condition :: rest → condition ≠ 0 →
      { frame with stack := ⟨rest⟩ }.increaseConsumedGas GasCost.jumpi = .ok frame' →
      (IsJumpdest code jumpAddress.toNat → opJumpi frame (validJumpDestinationsOf code) pc =
        .ok (frame', jumpAddress.toNat)) ∧
      (¬ IsJumpdest code jumpAddress.toNat →
        ∃ e, opJumpi frame (validJumpDestinationsOf code) pc = .error e)) := by
  refine ⟨getValidJumpDestinations_spec hlen, ?_, ?_⟩
  · intro frame frame' jumpAddress rest hstack hgas
    rw [opJump_eq hstack hgas]
    refine ⟨fun h => by rw [jump_of_isJumpdest hlen h]; rfl, fun h => ?_⟩
    obtain ⟨e, he⟩ := jump_of_not_isJumpdest hlen h
    exact ⟨e, by rw [he]; rfl⟩
  · intro frame frame' jumpAddress condition rest pc hstack hcondition hgas
    rw [opJumpi_eq hstack hcondition hgas]
    refine ⟨fun h => by rw [jump_of_isJumpdest hlen h]; rfl, fun h => ?_⟩
    obtain ⟨e, he⟩ := jump_of_not_isJumpdest hlen h
    exact ⟨e, by rw [he]; rfl⟩

end Exact

/-- `PUSH1 0x5b; JUMPDEST`: a `JUMPDEST` byte as push data, then one as an
instruction. -/
def pushedJumpdestCode : Bytes := [0x60, 0x5B, 0x5B]

theorem jump_destinations_pushedJumpdestCode :
    pushedJumpdestCode.length < 2 ^ 63 ∧
      ¬ IsJumpdest pushedJumpdestCode 1 ∧ IsJumpdest pushedJumpdestCode 2 := by
  obtain ⟨S, hS, hmem⟩ := (@jump_destinations_exact pushedJumpdestCode (by decide)).1
  have hscan : getValidJumpDestinations pushedJumpdestCode = .ok [2] := rfl
  rw [hscan, Except.ok.injEq] at hS
  subst hS
  refine ⟨by decide, fun h => ?_, (hmem 2).mp (by simp)⟩
  have := (hmem 1).mpr h
  simp at this

end Ethrex.Levm
