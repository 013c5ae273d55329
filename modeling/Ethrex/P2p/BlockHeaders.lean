/-
# `Ethrex.P2p.BlockHeaders` — serving `GetBlockHeaders`

A peer asks for headers by a start block (a hash or a number), a limit, a
skip and a direction, all of its choosing.  `fetch_headers`
(`rlpx/eth/blocks.rs`) walks the store from the start block in steps of
`skip + 1`, negated for a reverse request, and stops at the first missing
header, after the limit (at most 1024), or with nothing at all on a store
error.

The step is computed as `(skip + 1) as i64`, and the walk is in `i64`, read
back as `u64` for each lookup: the walk is modulo `2 ^ 64`.  For
`skip = u64::MAX` the step is zero: `skip + 1` panics with overflow checks,
and without them the step wraps to zero.  The start header is then returned
once per allowed header (`fetchHeaders_of_skip_max`), so block numbers
repeat.  `u64` and `i64` arithmetic wraps, as in a release build.
-/
import Ethrex.Blockchain.ForkChoice

namespace Ethrex.P2p

open Ethrex.Rlp (H256)
open Ethrex.Types (BlockHeader)
open Ethrex.Blockchain (StoreError)

/-- `HashOrNumber`: how a request names its start block. -/
inductive HashOrNumber where
  | hash (blockHash : H256)
  | number (blockNumber : UInt64)

/-- `GetBlockHeaders`. -/
structure GetBlockHeaders where
  id : UInt64
  startblock : HashOrNumber
  limit : UInt64
  skip : UInt64
  reverse : Bool

/-- `BLOCK_HEADER_LIMIT`. -/
def blockHeaderLimit : UInt64 := 1024

/-- What `fetch_headers` reads of the store: `get_block_number` and
`get_block_header`. -/
structure HeaderStore where
  getBlockNumber : H256 → Except StoreError (Option UInt64)
  getBlockHeader : UInt64 → Except StoreError (Option BlockHeader)

namespace GetBlockHeaders

variable (storage : HeaderStore)

/-- The loop of `fetch_headers` with `remaining` turns left: a found header
is pushed and the walk moves on, a missing one ends the loop, and a store
error makes the whole function answer nothing. -/
def fetchHeadersLoop (blockSkip : Int64) : Nat → Int64 → List BlockHeader → List BlockHeader
  | 0, _, headers => headers
  | remaining + 1, currentBlock, headers =>
    match storage.getBlockHeader currentBlock.toUInt64 with
    | .ok (some blockHeader) =>
      fetchHeadersLoop blockSkip remaining (currentBlock + blockSkip) (headers ++ [blockHeader])
    | .ok none => headers
    | .error _ => []

/-- The first step of `fetch_headers`: the start block's number, `None`
when a hash is not in the store or the store fails. -/
def startNumber (self : GetBlockHeaders) : Option UInt64 :=
  match self.startblock with
  | .hash blockHash =>
    match storage.getBlockNumber blockHash with
    | .ok (some blockNumber) => some blockNumber
    | _ => none
  | .number blockNum => some blockNum

/-- `GetBlockHeaders::fetch_headers`. -/
def fetchHeaders (self : GetBlockHeaders) : List BlockHeader :=
  match self.startNumber storage with
  | none => []
  | some startBlock =>
    let blockSkip : Int64 :=
      if self.reverse then -(self.skip + 1).toInt64 else (self.skip + 1).toInt64
    let limit := if self.limit > blockHeaderLimit then blockHeaderLimit else self.limit
    fetchHeadersLoop storage blockSkip limit.toNat startBlock.toInt64 []

theorem fetchHeaders_eq {self : GetBlockHeaders} {start : UInt64}
    (hstart : self.startNumber storage = some start) :
    self.fetchHeaders storage =
      fetchHeadersLoop storage
        (if self.reverse then -(self.skip + 1).toInt64 else (self.skip + 1).toInt64)
        (min self.limit.toNat 1024) start.toInt64 [] := by
  have hlimit : (if self.limit > blockHeaderLimit then blockHeaderLimit else self.limit).toNat =
      min self.limit.toNat 1024 := by
    by_cases h : self.limit > blockHeaderLimit
    · rw [if_pos h]
      have h' : 1024 < self.limit.toNat := UInt64.lt_iff_toNat_lt.mp h
      exact (Nat.min_eq_right (Nat.le_of_lt h')).symm
    · rw [if_neg h]
      have h' : self.limit.toNat ≤ 1024 := Nat.not_lt.mp (fun hc => h (UInt64.lt_iff_toNat_lt.mpr hc))
      exact (Nat.min_eq_left h').symm
  unfold fetchHeaders
  rw [hstart]
  dsimp only
  rw [hlimit]

/-- With a zero step the walk never leaves the start block: each turn
finds its header again. -/
theorem fetchHeadersLoop_zero {start : Int64} {header : BlockHeader}
    (hfound : storage.getBlockHeader start.toUInt64 = .ok (some header)) :
    ∀ (remaining : Nat) (headers : List BlockHeader),
      fetchHeadersLoop storage 0 remaining start headers =
        headers ++ List.replicate remaining header := by
  intro remaining
  induction remaining with
  | zero =>
    intro headers
    rw [List.replicate_zero, List.append_nil]
    rfl
  | succ remaining ih =>
    intro headers
    rw [fetchHeadersLoop, hfound]
    dsimp only
    rw [Int64.add_zero, ih, List.replicate_succ, List.append_assoc, List.singleton_append]

theorem blockSkip_of_skip_max {self : GetBlockHeaders} (hskip : self.skip = 18446744073709551615) :
    (if self.reverse then -(self.skip + 1).toInt64 else (self.skip + 1).toInt64) = 0 := by
  rw [hskip]
  cases self.reverse
  · decide
  · decide

end GetBlockHeaders

/-! ## The walk the request asks for -/

/-- The headers a request asks for, over unbounded integers: block
`current`, then `current + step` and so on for `remaining` blocks,
stopping before the first number that is negative, at least `2 ^ 64`, or
without a header. -/
def requestedHeaders (getHeader : UInt64 → Option BlockHeader) (step : Int) :
    Nat → Int → List BlockHeader
  | 0, _ => []
  | remaining + 1, current =>
    if 0 ≤ current ∧ current < 2 ^ 64 then
      match getHeader (UInt64.ofNat current.toNat) with
      | some header => header :: requestedHeaders getHeader step remaining (current + step)
      | none => []
    else []

/-- Where the code's `i64` walk stands against the unbounded one: on the
same number below `2 ^ 63`, or past the stored headers in both. -/
def WalkAt (position : Int64) (current : Int) : Prop :=
  (0 ≤ current ∧ current < 2 ^ 63 ∧ (position.toUInt64.toNat : Int) = current) ∨
    (2 ^ 63 ≤ position.toUInt64.toNat ∧
      (current < 0 ∨ (current < 2 ^ 64 ∧ (position.toUInt64.toNat : Int) = current)))

section Walk

variable {getHeader : UInt64 → Option BlockHeader} {skip : UInt64} {reverse : Bool}

theorem walkAt_step {position : Int64} {current : Int} (hskip : skip.toNat + 1 < 2 ^ 63)
    (hcurrent : 0 ≤ current ∧ current < 2 ^ 63) (hpos : (position.toUInt64.toNat : Int) = current) :
    WalkAt (position + if reverse then -(skip + 1).toInt64 else (skip + 1).toInt64)
      (current + if reverse then -((skip.toNat : Int) + 1) else (skip.toNat : Int) + 1) := by
  have hone : (skip + 1).toNat = skip.toNat + 1 := by
    rw [UInt64.toNat_add, show (1 : UInt64).toNat = 1 from rfl]
    exact Nat.mod_eq_of_lt (by omega)
  cases reverse
  · -- forward: the sum stays below `2 ^ 64`
    have hsum : (position + (skip + 1).toInt64).toUInt64.toNat = position.toUInt64.toNat + (skip.toNat + 1) := by
      rw [Int64.toUInt64_add, UInt64.toUInt64_toInt64, UInt64.toNat_add, hone]
      exact Nat.mod_eq_of_lt (by omega)
    simp only [Bool.false_eq_true, if_false]
    unfold WalkAt
    rw [hsum]
    omega
  · -- backward: below zero the difference wraps to `2 ^ 63` or above
    have hdiff : (position + -(skip + 1).toInt64).toUInt64.toNat =
        (position.toUInt64.toNat + (2 ^ 64 - (skip.toNat + 1))) % 2 ^ 64 := by
      have hsize : UInt64.size = 2 ^ 64 := rfl
      rw [Int64.toUInt64_add, Int64.toUInt64_neg, UInt64.toUInt64_toInt64, UInt64.toNat_add,
        UInt64.toNat_neg, hone, hsize,
        Nat.mod_eq_of_lt (show 2 ^ 64 - (skip.toNat + 1) < 2 ^ 64 by omega)]
    simp only [if_true]
    unfold WalkAt
    rw [hdiff]
    by_cases hle : skip.toNat + 1 ≤ position.toUInt64.toNat
    · rw [show position.toUInt64.toNat + (2 ^ 64 - (skip.toNat + 1)) =
        position.toUInt64.toNat - (skip.toNat + 1) + 2 ^ 64 by omega, Nat.add_mod_right,
        Nat.mod_eq_of_lt (by omega)]
      omega
    · rw [Nat.mod_eq_of_lt (by omega)]
      omega

/-- The loop of `fetch_headers` walks as the request asks, wherever the
store holds no header at `2 ^ 63` or above and answers every read. -/
theorem fetchHeadersLoop_eq_requestedHeaders (storage : HeaderStore)
    (hstore : ∀ n, storage.getBlockHeader n = .ok (getHeader n))
    (hhigh : ∀ n : UInt64, 2 ^ 63 ≤ n.toNat → getHeader n = none) (hskip : skip.toNat + 1 < 2 ^ 63) :
    ∀ (remaining : Nat) (position : Int64) (current : Int) (headers : List BlockHeader),
      WalkAt position current →
      GetBlockHeaders.fetchHeadersLoop storage
          (if reverse then -(skip + 1).toInt64 else (skip + 1).toInt64) remaining position headers =
        headers ++ requestedHeaders getHeader
          (if reverse then -((skip.toNat : Int) + 1) else (skip.toNat : Int) + 1) remaining current := by
  intro remaining
  induction remaining with
  | zero =>
    intro position current headers _
    simp only [GetBlockHeaders.fetchHeadersLoop, requestedHeaders, List.append_nil]
  | succ remaining ih =>
    intro position current headers hwalk
    rw [GetBlockHeaders.fetchHeadersLoop, hstore, requestedHeaders]
    rcases hwalk with ⟨h0, hlow, hpos⟩ | ⟨hhighPos, hout⟩
    · -- on the same number: both read the same header and step
      have hnum : UInt64.ofNat current.toNat = position.toUInt64 := by
        rw [← hpos, Int.toNat_natCast, UInt64.ofNat_toNat]
      rw [if_pos (show 0 ≤ current ∧ current < 2 ^ 64 from ⟨h0, by omega⟩), hnum]
      cases getHeader position.toUInt64 with
      | none =>
        dsimp only
        rw [List.append_nil]
      | some header =>
        dsimp only
        rw [ih _ _ _ (walkAt_step hskip ⟨h0, hlow⟩ hpos), List.append_assoc, List.singleton_append]
    · -- past the stored headers: the code finds nothing, the request stops
      rw [hhigh _ hhighPos]
      dsimp only
      rcases hout with hneg | ⟨hlt, hpos⟩
      · rw [if_neg (show ¬ (0 ≤ current ∧ current < 2 ^ 64) by omega), List.append_nil]
      · have hnum : UInt64.ofNat current.toNat = position.toUInt64 := by
          rw [← hpos, Int.toNat_natCast, UInt64.ofNat_toNat]
        rw [if_pos (show 0 ≤ current ∧ current < 2 ^ 64 from ⟨by omega, hlt⟩), hnum,
          hhigh _ hhighPos]
        dsimp only
        rw [List.append_nil]

end Walk

/-- A store with one header, the default one at block 0. -/
def genesisOnlyStore : HeaderStore where
  getBlockNumber _ := .ok none
  getBlockHeader n := .ok (if n = 0 then some default else none)

/-- For a skip below `2 ^ 63 - 1`, a store that answers every read and
holds no header at `2 ^ 63` or above, `fetch_headers` answers the headers
the request asks for over unbounded integers, up to `BLOCK_HEADER_LIMIT`. -/
theorem fetchHeaders_eq_requestedHeaders (storage : HeaderStore) (self : GetBlockHeaders)
    (getHeader : UInt64 → Option BlockHeader) (start : UInt64)
    (hstore : ∀ n, storage.getBlockHeader n = .ok (getHeader n))
    (hhigh : ∀ n : UInt64, 2 ^ 63 ≤ n.toNat → getHeader n = none)
    (hskip : self.skip.toNat + 1 < 2 ^ 63) (hstart : self.startNumber storage = some start) :
    self.fetchHeaders storage =
      requestedHeaders getHeader
        (if self.reverse then -((self.skip.toNat : Int) + 1) else (self.skip.toNat : Int) + 1)
        (min self.limit.toNat 1024) start.toNat := by
  have hwalk : WalkAt start.toInt64 start.toNat := by
    unfold WalkAt
    rw [UInt64.toUInt64_toInt64]
    have hlt := UInt64.toNat_lt start
    omega
  rw [GetBlockHeaders.fetchHeaders_eq storage hstart,
    fetchHeadersLoop_eq_requestedHeaders storage hstore hhigh hskip _ _ _ _ hwalk, List.nil_append]


/-- Three headers from block 0, one block apart, on the store with block 0
only: the walk stops at block 1. -/
theorem fetchHeaders_genesis_forward :
    ({ id := 0, startblock := .number 0, limit := 3, skip := 0, reverse := false } :
        GetBlockHeaders).fetchHeaders genesisOnlyStore =
      requestedHeaders (fun n => if n = 0 then some (default : BlockHeader) else none) 1 3 0 := by
  have hhigh : ∀ n : UInt64, 2 ^ 63 ≤ n.toNat →
      (if n = 0 then some (default : BlockHeader) else none) = none := by
    intro n hn
    have hne : n ≠ 0 := by
      rintro rfl
      simp at hn
    simp [hne]
  exact fetchHeaders_eq_requestedHeaders genesisOnlyStore _ _ 0 (fun _ => rfl) hhigh (by decide) rfl

/-- For every store and every request with `skip = u64::MAX` whose start
block has a header, `fetch_headers` answers that one header once for each
header the limit allows: the step `skip + 1` wraps to zero. -/
theorem fetchHeaders_of_skip_max (storage : HeaderStore) (self : GetBlockHeaders)
    (start : UInt64) (header : BlockHeader)
    (hstart : self.startNumber storage = some start)
    (hskip : self.skip = 18446744073709551615)
    (hfound : storage.getBlockHeader start = .ok (some header)) :
    self.fetchHeaders storage = List.replicate (min self.limit.toNat 1024) header := by
  have hfound' : storage.getBlockHeader start.toInt64.toUInt64 = .ok (some header) := by
    rw [UInt64.toUInt64_toInt64]
    exact hfound
  rw [GetBlockHeaders.fetchHeaders_eq storage hstart, GetBlockHeaders.blockSkip_of_skip_max hskip,
    GetBlockHeaders.fetchHeadersLoop_zero storage hfound', List.nil_append]

/-- Three headers from block 0 with `skip = u64::MAX`: block 0, three times. -/
theorem fetchHeaders_genesis_three_times :
    ({ id := 0, startblock := .number 0, limit := 3, skip := 18446744073709551615,
        reverse := false } : GetBlockHeaders).fetchHeaders genesisOnlyStore =
      [default, default, default] :=
  fetchHeaders_of_skip_max genesisOnlyStore _ 0 default rfl rfl rfl

end Ethrex.P2p
