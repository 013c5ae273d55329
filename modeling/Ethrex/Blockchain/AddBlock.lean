/-
# `Ethrex.Blockchain.AddBlock` — `add_block` and the checks it makes

`add_block` (`crates/blockchain/blockchain.rs`, `levm` feature) finds the
parent header, validates the block against it (`validate_block`: the
header checks of `common/types/block.rs`, the blob fields under Cancun and
the blob gas of the body), executes it (`execute_block`), compares the gas
used with the last receipt, applies the account updates to the parent state
and compares the state root and the receipts root, and then stores the
block and its receipts.

What it does not compare is as much a part of it.  No step reads the
header's `transactions_root` or `withdrawals_root`: the checks give the same
verdict whatever they hold (`blockChecks_withBodyRoots`), so a block
accepted with one value of them is accepted with any other
(`addBlock_accepts_any_body_roots`).  `validate_gas_used` compares nothing
when there are no receipts: a block without transactions may claim any gas
used up to its gas limit.

The store and the state it hands to the EVM are parameters (`BlockStore`,
`Revm`); so are Keccak-256, the curve and LEVM.  `u64` arithmetic wraps,
as in a release build.
-/
import Ethrex.Vm.ExecuteBlock
import Ethrex.Blockchain.ForkChoice
import Ethrex.Trie.Trie

namespace Ethrex.Types

open Ethrex.Rlp (H256)

/-- The header with the three fields that block execution does not read
replaced: the roots of the transactions and of the withdrawals, and the
gas used. -/
def BlockHeader.withBodyCommitments (header : BlockHeader) (transactionsRoot : H256)
    (withdrawalsRoot : Option H256) (gasUsed : UInt64) : BlockHeader :=
  { header with transactionsRoot, withdrawalsRoot, gasUsed }

/-- The block with those three header fields replaced. -/
def Block.withBodyCommitments (block : Block) (transactionsRoot : H256)
    (withdrawalsRoot : Option H256) (gasUsed : UInt64) : Block :=
  { block with header := block.header.withBodyCommitments transactionsRoot withdrawalsRoot gasUsed }

end Ethrex.Types

namespace Ethrex.Blockchain

open Ethrex.Rlp (Bytes H256 Address U256)
open Ethrex.Types
open Ethrex.Vm

/-! ## Errors -/

/-- `InvalidBlockHeaderError`. -/
inductive InvalidBlockHeaderError where
  | gasUsedGreaterThanGasLimit
  | baseFeePerGasIncorrect
  | timestampNotGreaterThanParent
  | blockNumberNotOneGreater
  | extraDataTooLong
  | difficultyNotZero
  | nonceNotZero
  | ommersHashNotDefault
  | parentHashIncorrect
  | excessBlobGasNotPresent
  | blobGasUsedNotPresent
  | excessBlobGasIncorrect
  | parentBeaconBlockRootNotPresent
  | excessBlobGasPresent
  | blobGasUsedPresent
  deriving DecidableEq, Repr

/-- `InvalidBlockError`. -/
inductive InvalidBlockError where
  | stateRootMismatch
  | receiptsRootMismatch
  | invalidHeader (e : InvalidBlockHeaderError)
  | exceededMaxBlobGasPerBlock
  | exceededMaxBlobNumberPerBlock
  | gasUsedMismatch
  | blobGasUsedMismatch
  | invalidTransaction (msg : String)
  deriving DecidableEq, Repr

/-- `ChainError`. -/
inductive ChainError where
  | invalidBlock (e : InvalidBlockError)
  | parentNotFound
  | parentStateNotFound
  | storeError (e : StoreError)
  | evmError (e : EvmError StoreError)

/-! ## Header checks (`common/types/block.rs`) -/

/-- `ELASTICITY_MULTIPLIER`. -/
def elasticityMultiplier : UInt64 := 2
/-- `BASE_FEE_MAX_CHANGE_DENOMINATOR`. -/
def baseFeeMaxChangeDenominator : UInt64 := 8
/-- `GAS_LIMIT_ADJUSTMENT_FACTOR`. -/
def gasLimitAdjustmentFactor : UInt64 := 1024
/-- `GAS_LIMIT_MINIMUM`. -/
def gasLimitMinimum : UInt64 := 5000

/-- `DEFAULT_OMMERS_HASH`: the Keccak-256 of the empty RLP list. -/
def defaultOmmersHash : H256 :=
  ⟨[0x1d, 0xcc, 0x4d, 0xe8, 0xde, 0xc7, 0x5d, 0x7a, 0xab, 0x85, 0xb5, 0x67, 0xb6, 0xcc, 0xd4, 0x1a,
    0xd3, 0x12, 0x45, 0x1b, 0x94, 0x8a, 0x74, 0x13, 0xf0, 0xa1, 0x42, 0xfd, 0x40, 0xd4, 0x93, 0x47],
    rfl⟩

/-- `check_gas_limit`. -/
def checkGasLimit (gasLimit parentGasLimit : UInt64) : Bool :=
  let maxAdjustmentDelta := parentGasLimit / gasLimitAdjustmentFactor
  gasLimit < parentGasLimit + maxAdjustmentDelta && gasLimit > parentGasLimit - maxAdjustmentDelta &&
    gasLimit ≥ gasLimitMinimum

/-- `calculate_base_fee_per_gas`: none when the gas limit moved too far. -/
def calculateBaseFeePerGas (blockGasLimit parentGasLimit parentGasUsed parentBaseFeePerGas : UInt64) :
    Option UInt64 :=
  if !checkGasLimit blockGasLimit parentGasLimit then none
  else
    let parentGasTarget := parentGasLimit / elasticityMultiplier
    some <|
      if parentGasUsed = parentGasTarget then parentBaseFeePerGas
      else if parentGasUsed > parentGasTarget then
        let gasUsedDelta := parentGasUsed - parentGasTarget
        let targetFeeGasDelta := parentBaseFeePerGas * gasUsedDelta / parentGasTarget
        parentBaseFeePerGas + max (targetFeeGasDelta / baseFeeMaxChangeDenominator) 1
      else
        let gasUsedDelta := parentGasTarget - parentGasUsed
        let targetFeeGasDelta := parentBaseFeePerGas * gasUsedDelta / parentGasTarget
        parentBaseFeePerGas - targetFeeGasDelta / baseFeeMaxChangeDenominator

/-- `validate_block_header`: the header against its parent. -/
def validateBlockHeader (keccak : Bytes → H256) (header parentHeader : BlockHeader) :
    Except InvalidBlockHeaderError Unit := do
  if header.gasUsed > header.gasLimit then throw .gasUsedGreaterThanGasLimit
  let some expectedBaseFeePerGas := calculateBaseFeePerGas header.gasLimit parentHeader.gasLimit
      parentHeader.gasUsed (parentHeader.baseFeePerGas.getD initialBaseFee)
    | throw .baseFeePerGasIncorrect
  if expectedBaseFeePerGas ≠ header.baseFeePerGas.getD initialBaseFee then
    throw .baseFeePerGasIncorrect
  if header.timestamp ≤ parentHeader.timestamp then throw .timestampNotGreaterThanParent
  if header.number ≠ parentHeader.number + 1 then throw .blockNumberNotOneGreater
  if header.extraData.length > 32 then throw .extraDataTooLong
  if header.difficulty ≠ 0 then throw .difficultyNotZero
  if header.nonce ≠ 0 then throw .nonceNotZero
  if header.ommersHash ≠ defaultOmmersHash then throw .ommersHashNotDefault
  if header.parentHash ≠ parentHeader.computeBlockHash keccak then throw .parentHashIncorrect

/-- `calc_excess_blob_gas`. -/
def calcExcessBlobGas (parentHeader : BlockHeader) : UInt64 :=
  let parentBlobGas := parentHeader.excessBlobGas.getD 0 + parentHeader.blobGasUsed.getD 0
  if parentBlobGas < 393216 then 0 else parentBlobGas - 393216

/-- `validate_cancun_header_fields`. -/
def validateCancunHeaderFields (header parentHeader : BlockHeader) :
    Except InvalidBlockHeaderError Unit := do
  let some excessBlobGas := header.excessBlobGas | throw .excessBlobGasNotPresent
  if header.blobGasUsed.isNone then throw .blobGasUsedNotPresent
  if excessBlobGas ≠ calcExcessBlobGas parentHeader then throw .excessBlobGasIncorrect
  if header.parentBeaconBlockRoot.isNone then throw .parentBeaconBlockRootNotPresent

/-- `validate_no_cancun_header_fields`. -/
def validateNoCancunHeaderFields (header : BlockHeader) : Except InvalidBlockHeaderError Unit := do
  if header.excessBlobGas.isSome then throw .excessBlobGasPresent
  if header.blobGasUsed.isSome then throw .blobGasUsedPresent

/-! ## Block checks (`blockchain.rs`) -/

/-- `GAS_PER_BLOB`. -/
def gasPerBlob : UInt64 := (1 : UInt64) <<< 17
/-- `MAX_BLOB_NUMBER_PER_BLOCK`. -/
def maxBlobNumberPerBlock : UInt64 := 6
/-- `MAX_BLOB_GAS_PER_BLOCK`. -/
def maxBlobGasPerBlock : UInt64 := maxBlobNumberPerBlock * gasPerBlob

/-- `get_total_blob_gas`. -/
def getTotalBlobGas (tx : EIP4844Transaction) : UInt64 :=
  gasPerBlob * tx.blobVersionedHashes.length.toUInt64

/-- The loop of `verify_blob_gas_usage`: the blob gas and the blob count of
the blob transactions. -/
def blobUsage (transactions : List Transaction) : UInt64 × UInt64 :=
  transactions.foldl (fun (blobGasUsed, blobsInBlock) transaction =>
    match transaction with
    | .eip4844Transaction tx =>
      (blobGasUsed + getTotalBlobGas tx, blobsInBlock + tx.blobVersionedHashes.length.toUInt64)
    | _ => (blobGasUsed, blobsInBlock)) (0, 0)

/-- `verify_blob_gas_usage`. -/
def verifyBlobGasUsage (block : Block) : Except ChainError Unit := do
  let (blobGasUsed, blobsInBlock) := blobUsage block.body.transactions
  if blobGasUsed > maxBlobGasPerBlock then throw (.invalidBlock .exceededMaxBlobGasPerBlock)
  if blobsInBlock > maxBlobNumberPerBlock then throw (.invalidBlock .exceededMaxBlobNumberPerBlock)
  if block.header.blobGasUsed.any (· ≠ blobGasUsed) then throw (.invalidBlock .blobGasUsedMismatch)

/-- `validate_block`, given the chain configuration the state reads. -/
def validateBlock (keccak : Bytes → H256) (block : Block) (parentHeader : BlockHeader)
    (chainConfig : Except (EvmError StoreError) ChainConfig) : Except ChainError Unit := do
  let spec := specId (← chainConfig.mapError .evmError) block.header.timestamp
  (validateBlockHeader keccak block.header parentHeader).mapError (.invalidBlock ∘ .invalidHeader)
  match spec with
  | .cancun =>
    (validateCancunHeaderFields block.header parentHeader).mapError (.invalidBlock ∘ .invalidHeader)
  | _ => (validateNoCancunHeaderFields block.header).mapError (.invalidBlock ∘ .invalidHeader)
  if spec == .cancun then verifyBlobGasUsage block

/-- `validate_gas_used`: the last receipt's cumulative gas, if there is one. -/
def validateGasUsed (receipts : List Receipt) (blockHeader : BlockHeader) : Except ChainError Unit :=
  match receipts.getLast? with
  | some last =>
    if last.cumulativeGasUsed ≠ blockHeader.gasUsed then throw (.invalidBlock .gasUsedMismatch)
    else pure ()
  | none => pure ()

/-- `validate_state_root`. -/
def validateStateRoot (blockHeader : BlockHeader) (newStateRoot : H256) : Except ChainError Unit :=
  if newStateRoot = blockHeader.stateRoot then pure () else throw (.invalidBlock .stateRootMismatch)

/-- `Trie::compute_hash_from_unsorted_iter`, whose inserts are unwrapped. -/
def computeRoot {ε : Type} (keccak : Bytes → H256) (iter : List (Bytes × Bytes)) : Outcome ε H256 :=
  match Ethrex.Mpt.Trie.computeHashFromUnsortedIter keccak iter with
  | .ok root => .ok root
  | .error _ => .panic

/-- `compute_transactions_root`: the trie of the canonical encodings under
the RLP-encoded indices. -/
def computeTransactionsRoot {ε : Type} (keccak : Bytes → H256) (transactions : List Transaction) :
    Outcome ε H256 :=
  computeRoot keccak
    (transactions.zipIdx.map fun (tx, idx) => (Ethrex.Rlp.Usize.encode idx.toUInt64, tx.encodeCanonical))

/-- `compute_receipts_root`: the trie of the receipts' inner encodings under
the RLP-encoded indices. -/
def computeReceiptsRoot {ε : Type} (keccak : Bytes → H256) (receipts : List Receipt) : Outcome ε H256 :=
  computeRoot keccak
    (receipts.zipIdx.map fun (receipt, idx) => (Ethrex.Rlp.Usize.encode idx.toUInt64, receipt.encodeInner))

/-- `validate_receipts_root`. -/
def validateReceiptsRoot (keccak : Bytes → H256) (blockHeader : BlockHeader) (receipts : List Receipt) :
    Outcome ChainError Unit := do
  let receiptsRoot ← computeReceiptsRoot keccak receipts
  if receiptsRoot = blockHeader.receiptsRoot then pure ()
  else throw (.invalidBlock .receiptsRootMismatch)

/-! ## `add_block` -/

/-- The part of `Store` that `add_block` reads and writes, over the states
of the store. -/
structure BlockStore (β : Type) where
  getBlockHeaderByHash : β → H256 → Except StoreError (Option BlockHeader)
  addPendingBlock : β → Block → Except StoreError β
  /-- The root of the state of a block with the updates applied, none when
  that state is not stored. -/
  applyAccountUpdates : β → H256 → List AccountUpdate → Except StoreError (Option H256)
  addBlock : β → Block → Except StoreError β
  addReceipts : β → H256 → List Receipt → Except StoreError β

variable {β σ SK PK Sig Vm : Type} (store : BlockStore β) (revm : Revm σ β StoreError)
  (evmState : β → H256 → σ) (ctx : Secp256k1Context SK PK Sig) (keccak : Bytes → H256)
  (levm : Levm (StoreWrapper β) Vm)

/-- `find_parent_header`. -/
def findParentHeader (blockHeader : BlockHeader) (storage : β) : Except ChainError BlockHeader :=
  match store.getBlockHeaderByHash storage blockHeader.parentHash with
  | .error e => .error (.storeError e)
  | .ok (some parentHeader) => .ok parentHeader
  | .ok none => .error .parentNotFound

/-- What `add_block` does between finding the parent and storing: validate
the block, execute it, and compare the gas used, the state root and the
receipts root with the header.  It returns the receipts to store. -/
def blockChecks (block : Block) (parentHeader : BlockHeader) (storage : β) :
    Outcome ChainError (List Receipt) := do
  let state := evmState storage block.header.parentHash
  Outcome.ofExcept (validateBlock keccak block parentHeader (revm.chainConfig state))
  let ((receipts, accountUpdates), state) ←
    (executeBlock revm ctx keccak levm block state).mapError .evmError
  Outcome.ofExcept (validateGasUsed receipts block.header)
  let some database := revm.database state | throw (.storeError .missingStore)
  let newStateRoot ←
    match store.applyAccountUpdates database block.header.parentHash accountUpdates with
    | .error e => throw (.storeError e)
    | .ok none => throw .parentStateNotFound
    | .ok (some root) => pure root
  Outcome.ofExcept (validateStateRoot block.header newStateRoot)
  validateReceiptsRoot keccak block.header receipts
  pure receipts

/-- `add_block`: its result and the store after it.  Without a parent the
block is stored as pending; an error after that leaves the store as the
last write did. -/
def addBlock (block : Block) (storage : β) : Outcome ChainError Unit × β :=
  let blockHash := block.header.computeBlockHash keccak
  match findParentHeader store block.header storage with
  | .error _ =>
    match store.addPendingBlock storage block with
    | .ok storage => (.err .parentNotFound, storage)
    | .error e => (.err (.storeError e), storage)
  | .ok parentHeader =>
    match blockChecks store revm evmState ctx keccak levm block parentHeader storage with
    | .ok receipts =>
      match store.addBlock storage block with
      | .error e => (.err (.storeError e), storage)
      | .ok storage =>
        match store.addReceipts storage blockHash receipts with
        | .error e => (.err (.storeError e), storage)
        | .ok storage => (.ok (), storage)
    | .err e => (.err e, storage)
    | .panic => (.panic, storage)

/-! ## What an accepted block satisfies -/

/-! ## What the checks do not read -/

section Frame

variable (r : H256) (w : Option H256) (g : UInt64)

theorem executeTxLevm_withBodyCommitments (tx : Transaction) (header : BlockHeader)
    (db : StoreWrapper β) :
    executeTxLevm ctx keccak levm tx (header.withBodyCommitments r w g) db =
      executeTxLevm ctx keccak levm tx header db := rfl

theorem executeTxs_withBodyCommitments (header : BlockHeader) (db : StoreWrapper β) :
    ∀ (txs : List Transaction) (c : UInt64),
      (executeTxs ctx keccak levm (header.withBodyCommitments r w g) db txs c :
          Outcome (EvmError StoreError) _) = executeTxs ctx keccak levm header db txs c
  | [], _ => rfl
  | tx :: txs, c => by
    rw [executeTxs, executeTxs, executeTxLevm_withBodyCommitments]
    simp only [executeTxs_withBodyCommitments header db txs]

theorem beginBlock_withBodyCommitments (block : Block) (state : σ) :
    beginBlock revm (block.withBodyCommitments r w g) state = beginBlock revm block state := rfl

theorem executeBlock_withBodyCommitments (block : Block) (state : σ) :
    executeBlock revm ctx keccak levm (block.withBodyCommitments r w g) state =
      executeBlock revm ctx keccak levm block state := by
  rw [executeBlock, executeBlock, beginBlock_withBodyCommitments]
  simp only [Block.withBodyCommitments, executeTxs_withBodyCommitments]
  rfl

theorem validateBlockHeader_withBodyCommitments {header : BlockHeader}
    (hg : header.gasLimit < g ↔ header.gasLimit < header.gasUsed) (parentHeader : BlockHeader) :
    validateBlockHeader keccak (header.withBodyCommitments r w g) parentHeader =
      validateBlockHeader keccak header parentHeader := by
  rw [validateBlockHeader, validateBlockHeader]
  -- past the first comparison the two headers read the same fields
  let header' := header.withBodyCommitments r w g
  by_cases hlt : header.gasLimit < header.gasUsed
  · rw [if_pos (show header'.gasUsed > header'.gasLimit from hg.mpr hlt), if_pos hlt]
    rfl
  · rw [if_neg (show ¬header'.gasUsed > header'.gasLimit from mt hg.mp hlt), if_neg hlt]
    rfl

theorem validateBlock_withBodyCommitments {block : Block}
    (hg : block.header.gasLimit < g ↔ block.header.gasLimit < block.header.gasUsed)
    (parentHeader : BlockHeader) (chainConfig : Except (EvmError StoreError) ChainConfig) :
    validateBlock keccak (block.withBodyCommitments r w g) parentHeader chainConfig =
      validateBlock keccak block parentHeader chainConfig := by
  have hheader := validateBlockHeader_withBodyCommitments keccak r w g hg parentHeader
  unfold validateBlock
  rw [show (block.withBodyCommitments r w g).header = block.header.withBodyCommitments r w g from rfl,
    hheader]
  rfl

theorem validateGasUsed_withBodyCommitments {receipts : List Receipt} {header : BlockHeader}
    (hg : g = header.gasUsed ∨ receipts = []) :
    validateGasUsed receipts (header.withBodyCommitments r w g) = validateGasUsed receipts header := by
  rcases hg with rfl | rfl
  · rfl
  · rfl

/-- **The checks of `add_block` do not read the body roots, and read the gas
used of a block without transactions only against its gas limit.** -/
theorem blockChecks_withBodyCommitments {block : Block}
    (hg : g = block.header.gasUsed ∨ (block.body.transactions = [] ∧ g ≤ block.header.gasLimit ∧
      block.header.gasUsed ≤ block.header.gasLimit))
    (parentHeader : BlockHeader) (storage : β) :
    blockChecks store revm evmState ctx keccak levm (block.withBodyCommitments r w g) parentHeader storage =
      blockChecks store revm evmState ctx keccak levm block parentHeader storage := by
  -- both gas values are on the same side of the gas limit
  have hlimit : block.header.gasLimit < g ↔ block.header.gasLimit < block.header.gasUsed := by
    rcases hg with rfl | ⟨-, hg, hused⟩
    · rfl
    · exact ⟨fun h => absurd h (UInt64.not_lt.mpr hg), fun h => absurd h (UInt64.not_lt.mpr hused)⟩
  rw [blockChecks, blockChecks, validateBlock_withBodyCommitments keccak r w g hlimit,
    show (block.withBodyCommitments r w g).header.parentHash = block.header.parentHash from rfl,
    executeBlock_withBodyCommitments]
  cases hexec : executeBlock revm ctx keccak levm block (evmState storage block.header.parentHash) with
  | ok res =>
    obtain ⟨⟨receipts, updates⟩, state⟩ := res
    -- a block without transactions has no receipts to compare the gas used with
    have hgas : g = block.header.gasUsed ∨ receipts = [] := by
      rcases hg with hg | ⟨hnil, -⟩
      · exact .inl hg
      · obtain ⟨_, _, -, htxs⟩ := executeBlock_eq_ok revm ctx keccak levm hexec
        rw [hnil] at htxs
        simp only [executeTxs, Outcome.pure_eq_ok, Outcome.ok.injEq, Prod.mk.injEq] at htxs
        exact .inr htxs.1.symm
    simp only [Outcome.mapError_ok, Outcome.ok_bind]
    rw [show (block.withBodyCommitments r w g).header = block.header.withBodyCommitments r w g from rfl,
      validateGasUsed_withBodyCommitments r w g hgas]
    rfl
  | err e => rfl
  | panic => rfl

/-- **`add_block` does not check the body roots, nor the gas used of a block
without transactions.**  When the store's writes do not fail, a block whose
header differs from another's only in its transactions root and
withdrawals root, or, without transactions, also in a gas used within the
gas limit, gets the same verdict: one is stored if and only if the other
is. -/
theorem addBlock_verdict_ignores_body_commitments
    (hpending : ∀ s b, ∃ s', store.addPendingBlock s b = .ok s')
    (hblock : ∀ s b, ∃ s', store.addBlock s b = .ok s')
    (hreceipts : ∀ s hash rs, ∃ s', store.addReceipts s hash rs = .ok s') {block : Block}
    (hg : g = block.header.gasUsed ∨ (block.body.transactions = [] ∧ g ≤ block.header.gasLimit ∧
      block.header.gasUsed ≤ block.header.gasLimit))
    (storage : β) :
    (addBlock store revm evmState ctx keccak levm (block.withBodyCommitments r w g) storage).1 =
      (addBlock store revm evmState ctx keccak levm block storage).1 := by
  rw [addBlock, addBlock, show findParentHeader store (block.withBodyCommitments r w g).header storage =
    findParentHeader store block.header storage from rfl]
  cases findParentHeader store block.header storage with
  | error e =>
    obtain ⟨_, h1⟩ := hpending storage (block.withBodyCommitments r w g)
    obtain ⟨_, h2⟩ := hpending storage block
    simp only [h1, h2]
  | ok parentHeader =>
    dsimp only
    rw [blockChecks_withBodyCommitments store revm evmState ctx keccak levm r w g hg]
    cases blockChecks store revm evmState ctx keccak levm block parentHeader storage with
    | ok receipts =>
      -- the two blocks are stored under different hashes, both successfully
      obtain ⟨s1, h1⟩ := hblock storage (block.withBodyCommitments r w g)
      obtain ⟨s2, h2⟩ := hblock storage block
      obtain ⟨_, h3⟩ :=
        hreceipts s1 ((block.withBodyCommitments r w g).header.computeBlockHash keccak) receipts
      obtain ⟨_, h4⟩ := hreceipts s2 (block.header.computeBlockHash keccak) receipts
      simp only [h1, h2, h3, h4]
    | err e => rfl
    | panic => rfl

end Frame

/-! ## A block with forged roots -/

/-- The parent: the default header with a gas limit of 30 million, half of
it used. -/
def halfFullParent : BlockHeader :=
  { (default : BlockHeader) with gasLimit := 30000000, gasUsed := 15000000 }

/-- A store that finds that parent under every hash, whose writes succeed,
and whose states all have the zero root. -/
def halfFullParentStore : BlockStore Unit where
  getBlockHeaderByHash _ _ := .ok (some halfFullParent)
  addPendingBlock _ _ := .ok ()
  applyAccountUpdates _ _ _ := .ok (some (.replicate 32 0))
  addBlock _ _ := .ok ()
  addReceipts _ _ _ := .ok ()

/-- A chain before Shanghai whose state is the store. -/
def preShanghaiRevm : Revm Unit Unit StoreError where
  chainConfig _ := .ok { shanghaiTime := none, cancunTime := none }
  database _ := some ()
  systemCall s _ _ _ := .ok s
  incrementBalances s _ := .ok s

/-- The empty child of that parent, every root the zero hash (the empty
trie's root under a hash function that gives zero). -/
def emptyChild : Block :=
  { header := { (default : BlockHeader) with
      ommersHash := defaultOmmersHash, number := 1, timestamp := 1, gasLimit := 30000000 },
    body := { transactions := [], ommers := [], withdrawals := none } }

theorem addBlock_accepts_forged_empty_block :
    (computeTransactionsRoot (fun _ => .replicate 32 0) [] : Outcome ChainError H256) =
        .ok (.replicate 32 0) ∧
      (addBlock halfFullParentStore preShanghaiRevm (fun _ _ => ()) rejectingZeroR
        (fun _ => .replicate 32 0) rejectingLevm
        (emptyChild.withBodyCommitments (.replicate 32 0xff) (some (.replicate 32 0xff)) 1) ()).1 =
        .ok () := by
  refine ⟨rfl, ?_⟩
  rw [addBlock_verdict_ignores_body_commitments halfFullParentStore preShanghaiRevm _ rejectingZeroR _
    rejectingLevm _ _ _ (fun _ _ => ⟨(), rfl⟩) (fun _ _ => ⟨(), rfl⟩) (fun _ _ _ => ⟨(), rfl⟩)
    (.inr ⟨rfl, by decide, by decide⟩)]
  rfl

end Ethrex.Blockchain
