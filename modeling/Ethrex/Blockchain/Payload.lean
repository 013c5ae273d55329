/-
# `Ethrex.Blockchain.Payload` — the header a payload is built on

`create_payload` (`blockchain/payload.rs`) builds the empty block a
consensus client asks for: the parent is read from the store, and the
header's gas limit, base fee, number and blob fields are computed from
it.  The checks that block must later pass are `validate_block_header`
and `validate_cancun_header_fields` (`common/types/block.rs`), written
separately from the builder.

Most fields agree (`validateBlockHeader_payloadHeader`,
`validateCancunHeaderFields_payloadHeader`): for a parent with a base fee
and a gas limit that the validator's arithmetic can hold, the built header
passes, and its excess blob gas is the validator's.  The gas limit does
not go where the builder means it to.  `calc_gas_limit` clamps the
desired limit with `min` against `MIN_GAS_LIMIT`, so the target is always
at most 5000, and the builder's ceiling of thirty million is never
reached: each block lowers the limit by the largest step the validator
allows (`calcGasLimit_toNat`), whatever the desired limit, until it is
5000 (`iterate_calcGasLimit_eq_minGasLimit`).

The header is `payloadHeader`, a function of the parent, the chain
configuration, the arguments and the three roots; `createPayload` reads
the store and computes the roots around it.
-/
import Ethrex.Blockchain.BaseFee

namespace Ethrex.Blockchain

open Ethrex.Rlp (Bytes H256 Address U256)
open Ethrex.Types
open Ethrex.Vm

/-- `BuildPayloadArgs`: the fields `create_payload` reads. -/
structure BuildPayloadArgs where
  parent : H256
  timestamp : UInt64
  feeRecipient : Address
  random : H256
  withdrawals : Option (List Withdrawal)
  beaconRoot : Option H256

/-- The part of `Store` that `create_payload` reads. -/
structure PayloadStore (β : Type) where
  getBlockHeaderByHash : β → H256 → Except StoreError (Option BlockHeader)
  getChainConfig : β → Except StoreError ChainConfig

/-- `DEFAULT_BUILDER_GAS_CEIL`. -/
def defaultBuilderGasCeil : UInt64 := 30000000
/-- `GAS_LIMIT_BOUND_DIVISOR`. -/
def gasLimitBoundDivisor : UInt64 := 1024
/-- `MIN_GAS_LIMIT`. -/
def minGasLimit : UInt64 := 5000
/-- `TARGET_BLOB_GAS_PER_BLOCK`. -/
def targetBlobGasPerBlock : UInt64 := 393216

/-- `u64::saturating_add`. -/
def saturatingAdd (a b : UInt64) : UInt64 :=
  if a.toNat + b.toNat < 2 ^ 64 then a + b else 18446744073709551615

/-- `calc_gas_limit`. -/
def calcGasLimit (parentGasLimit desiredLimit : UInt64) : UInt64 :=
  let delta := parentGasLimit / gasLimitBoundDivisor - 1
  let desiredLimit := min desiredLimit minGasLimit
  if parentGasLimit < desiredLimit then
    let limit := parentGasLimit + delta
    if limit > desiredLimit then desiredLimit else limit
  else if parentGasLimit > desiredLimit then
    let limit := parentGasLimit - delta
    if limit < desiredLimit then desiredLimit else limit
  else parentGasLimit

namespace Payload

/-- `payload.rs`'s own `calc_excess_blob_gas`. -/
def calcExcessBlobGas (parentExcessBlobGas parentBlobGasUsed : UInt64) : UInt64 :=
  let excessBlobGas := parentExcessBlobGas + parentBlobGasUsed
  if excessBlobGas < targetBlobGasPerBlock then 0 else excessBlobGas - targetBlobGasPerBlock

end Payload

/-- `compute_withdrawals_root`: the trie of the withdrawals' encodings under
the RLP-encoded indices. -/
def computeWithdrawalsRoot {ε : Type} (keccak : Bytes → H256) (withdrawals : List Withdrawal) :
    Outcome ε H256 :=
  computeRoot keccak
    (withdrawals.zipIdx.map fun (withdrawal, idx) => (Ethrex.Rlp.Usize.encode idx.toUInt64, withdrawal.encode))

/-- The header `create_payload` writes, given the three roots it computes. -/
def payloadHeader (parentBlock : BlockHeader) (chainConfig : ChainConfig) (args : BuildPayloadArgs)
    (transactionsRoot receiptsRoot withdrawalsRoot : H256) : BlockHeader :=
  let gasLimit := calcGasLimit parentBlock.gasLimit defaultBuilderGasCeil
  { parentHash := args.parent
    ommersHash := defaultOmmersHash
    coinbase := args.feeRecipient
    stateRoot := parentBlock.stateRoot
    transactionsRoot
    receiptsRoot
    logsBloom := .replicate 256 0
    difficulty := 0
    number := saturatingAdd parentBlock.number 1
    gasLimit
    gasUsed := 0
    timestamp := args.timestamp
    extraData := []
    prevRandao := args.random
    nonce := 0
    baseFeePerGas := calculateBaseFeePerGas gasLimit parentBlock.gasLimit parentBlock.gasUsed
      (parentBlock.baseFeePerGas.getD 0)
    withdrawalsRoot := if chainConfig.isShanghaiActivated args.timestamp then some withdrawalsRoot else none
    blobGasUsed := if chainConfig.isCancunActivated args.timestamp then some 0 else none
    excessBlobGas :=
      if chainConfig.isCancunActivated args.timestamp then
        some (Payload.calcExcessBlobGas (parentBlock.excessBlobGas.getD 0) (parentBlock.blobGasUsed.getD 0))
      else none
    parentBeaconBlockRoot := args.beaconRoot }

/-- `create_payload`.  The withdrawals root is computed before
`then_some` looks at the fork, as in the source. -/
def createPayload {β : Type} (store : PayloadStore β) (keccak : Bytes → H256) (args : BuildPayloadArgs)
    (storage : β) : Outcome ChainError Block := do
  let parentBlock ← match store.getBlockHeaderByHash storage args.parent with
    | .error e => throw (.storeError e)
    | .ok none => throw .parentNotFound
    | .ok (some parentBlock) => pure parentBlock
  let chainConfig ← match store.getChainConfig storage with
    | .error e => throw (.storeError e)
    | .ok chainConfig => pure chainConfig
  let transactionsRoot ← computeTransactionsRoot keccak []
  let receiptsRoot ← computeReceiptsRoot keccak []
  let withdrawalsRoot ← computeWithdrawalsRoot keccak (args.withdrawals.getD [])
  let header := payloadHeader parentBlock chainConfig args transactionsRoot receiptsRoot withdrawalsRoot
  let body : BlockBody := { transactions := [], ommers := [], withdrawals := args.withdrawals }
  pure { header, body }

/-! ## The gas limit -/

section GasLimit

theorem calcGasLimit_toNat (p d : UInt64) (hp : 5000 ≤ p.toNat) :
    (calcGasLimit p d).toNat = max (p.toNat - (p.toNat / 1024 - 1)) (min d.toNat 5000) := by
  have hdiv : (p / gasLimitBoundDivisor).toNat = p.toNat / 1024 := UInt64.toNat_div _ _
  have hone : (1 : UInt64).toNat = 1 := rfl
  have hdelta : (p / gasLimitBoundDivisor - 1).toNat = p.toNat / 1024 - 1 := by
    rw [UInt64.toNat_sub_of_le _ _ (UInt64.le_iff_toNat_le.mpr (by rw [hdiv, hone]; omega)), hdiv, hone]
  have hsub : (p - (p / gasLimitBoundDivisor - 1)).toNat = p.toNat - (p.toNat / 1024 - 1) := by
    rw [UInt64.toNat_sub_of_le _ _ (UInt64.le_iff_toNat_le.mpr (by rw [hdelta]; omega)), hdelta]
  have hmin : (min d minGasLimit).toNat = min d.toNat 5000 := UInt64.toNat_min _ _
  -- the clamped target is at most 5000, so the limit never goes up
  have hnotlt : ¬ p < min d minGasLimit := by
    rw [UInt64.lt_iff_toNat_lt, hmin]
    omega
  unfold calcGasLimit
  dsimp only
  rw [if_neg hnotlt]
  by_cases hgt : p > min d minGasLimit
  · rw [if_pos hgt]
    split
    · next hlt =>
      rw [UInt64.lt_iff_toNat_lt, hsub, hmin] at hlt
      rw [hmin]
      omega
    · next hge =>
      rw [UInt64.lt_iff_toNat_lt, hsub, hmin] at hge
      rw [hsub]
      omega
  · -- the parent is at the target, which is then 5000
    rw [if_neg hgt]
    rw [GT.gt, UInt64.lt_iff_toNat_lt, hmin] at hgt
    omega

/-- Above 5000 every built block lowers the limit, even when the desired
limit is above the parent's. -/
theorem calcGasLimit_lt (p d : UInt64) (hp : 5000 < p.toNat) : (calcGasLimit p d).toNat < p.toNat := by
  rw [calcGasLimit_toNat p d (by omega)]
  omega

theorem le_calcGasLimit (p d : UInt64) (hp : 5000 ≤ p.toNat) (hd : 5000 ≤ d.toNat) :
    5000 ≤ (calcGasLimit p d).toNat := by
  rw [calcGasLimit_toNat p d hp]
  omega

/-- Block after block the builder drives the gas limit down to 5000, from
any parent limit of at least 5000. -/
theorem iterate_calcGasLimit_eq_minGasLimit (p : UInt64) (hp : 5000 ≤ p.toNat) :
    ∃ n, (fun g => calcGasLimit g defaultBuilderGasCeil)^[n] p = minGasLimit := by
  generalize hsize : p.toNat = size
  induction size using Nat.strong_induction_on generalizing p with
  | h size ih =>
    by_cases hmin : p.toNat = 5000
    · -- already at the floor
      refine ⟨0, UInt64.toNat_inj.mp ?_⟩
      rw [Function.iterate_zero_apply, hmin]
      rfl
    · -- one block lowers the limit and keeps it at least 5000
      have hlt := calcGasLimit_lt p defaultBuilderGasCeil (by omega)
      have hle := le_calcGasLimit p defaultBuilderGasCeil hp (by decide)
      obtain ⟨n, hn⟩ := ih _ (hsize ▸ hlt) _ hle rfl
      exact ⟨n + 1, by rw [Function.iterate_succ_apply]; exact hn⟩

end GasLimit

/-! ## The header against the validator -/

section Header

variable (keccak : Bytes → H256) {parent : BlockHeader} {config : ChainConfig} {args : BuildPayloadArgs}
  {transactionsRoot receiptsRoot withdrawalsRoot : H256}

/-- The built limit is one `check_gas_limit` accepts, when the validator's
`parent + parent / 1024` does not overflow. -/
theorem checkGasLimit_calcGasLimit {p d : UInt64} (hp : 5000 ≤ p.toNat) (hd : 5000 ≤ d.toNat)
    (hfit : p.toNat + p.toNat / 1024 < 2 ^ 64) : checkGasLimit (calcGasLimit p d) p = true := by
  rw [checkGasLimit_iff hfit, calcGasLimit_toNat p d hp]
  omega

theorem saturatingAdd_of_lt {a b : UInt64} (h : a.toNat + b.toNat < 2 ^ 64) : saturatingAdd a b = a + b :=
  if_pos h

theorem payload_calcExcessBlobGas (parentHeader : BlockHeader) :
    Payload.calcExcessBlobGas (parentHeader.excessBlobGas.getD 0) (parentHeader.blobGasUsed.getD 0) =
      calcExcessBlobGas parentHeader := rfl

/-- The built header passes `validate_block_header`, for a parent that has
a base fee, a gas limit of at least 5000 whose bounds fit in `u64`, and a
number below the largest, under an earlier timestamp and its own hash. -/
theorem validateBlockHeader_payloadHeader (hlimit : 5000 ≤ parent.gasLimit.toNat)
    (hfit : parent.gasLimit.toNat + parent.gasLimit.toNat / 1024 < 2 ^ 64)
    (hbase : parent.baseFeePerGas.isSome) (hnumber : parent.number.toNat + 1 < 2 ^ 64)
    (htime : parent.timestamp < args.timestamp) (hparent : parent.computeBlockHash keccak = args.parent) :
    validateBlockHeader keccak (payloadHeader parent config args transactionsRoot receiptsRoot withdrawalsRoot)
      parent = .ok () := by
  obtain ⟨baseFee, hbase⟩ := Option.isSome_iff_exists.mp hbase
  have hcheck := checkGasLimit_calcGasLimit hlimit (show 5000 ≤ defaultBuilderGasCeil.toNat by decide) hfit
  -- the base fee is the validator's: the same computation from the same parent fee
  obtain ⟨fee, hfee⟩ : ∃ fee, calculateBaseFeePerGas (calcGasLimit parent.gasLimit defaultBuilderGasCeil)
      parent.gasLimit parent.gasUsed baseFee = some fee := by
    unfold calculateBaseFeePerGas
    rw [hcheck]
    exact ⟨_, rfl⟩
  have hgas : ¬ (0 : UInt64) > calcGasLimit parent.gasLimit defaultBuilderGasCeil := by
    rw [GT.gt, UInt64.lt_iff_toNat_lt]
    exact Nat.not_lt_zero _
  have htime' : ¬ args.timestamp ≤ parent.timestamp := by
    rw [UInt64.le_iff_toNat_le]
    have := UInt64.lt_iff_toNat_lt.mp htime
    omega
  have hnum : saturatingAdd parent.number 1 = parent.number + 1 := saturatingAdd_of_lt hnumber
  unfold validateBlockHeader payloadHeader
  simp [hbase, hfee, hgas, htime', hnum, hparent]

/-- Under Cancun the blob fields pass exactly when the arguments carry a
beacon root: the builder copies `args.beacon_root`, which may be absent. -/
theorem validateCancunHeaderFields_payloadHeader (hcancun : config.isCancunActivated args.timestamp = true) :
    validateCancunHeaderFields (payloadHeader parent config args transactionsRoot receiptsRoot withdrawalsRoot)
        parent =
      if args.beaconRoot.isSome then .ok () else .error .parentBeaconBlockRootNotPresent := by
  unfold validateCancunHeaderFields payloadHeader
  cases hroot : args.beaconRoot <;> simp [hcancun, payload_calcExcessBlobGas]

/-- A parent without a base fee that used exactly its target: the builder
computes the fee from 0 and keeps 0, the validator from `INITIAL_BASE_FEE`
and keeps that, so the header is rejected. -/
theorem validateBlockHeader_payloadHeader_of_no_baseFee (hlimit : 5000 ≤ parent.gasLimit.toNat)
    (hfit : parent.gasLimit.toNat + parent.gasLimit.toNat / 1024 < 2 ^ 64)
    (hbase : parent.baseFeePerGas = none) (htarget : parent.gasUsed = parent.gasLimit / elasticityMultiplier) :
    validateBlockHeader keccak (payloadHeader parent config args transactionsRoot receiptsRoot withdrawalsRoot)
      parent = .error .baseFeePerGasIncorrect := by
  have hcheck := checkGasLimit_calcGasLimit hlimit (show 5000 ≤ defaultBuilderGasCeil.toNat by decide) hfit
  have hfee : ∀ f, calculateBaseFeePerGas (calcGasLimit parent.gasLimit defaultBuilderGasCeil)
      parent.gasLimit parent.gasUsed f = some f := by
    intro f
    unfold calculateBaseFeePerGas
    rw [hcheck, htarget, Bool.not_true, if_neg Bool.false_ne_true]
    dsimp only
    rw [if_pos rfl]
  have hgas : ¬ (0 : UInt64) > calcGasLimit parent.gasLimit defaultBuilderGasCeil := by
    rw [GT.gt, UInt64.lt_iff_toNat_lt]
    exact Nat.not_lt_zero _
  unfold validateBlockHeader payloadHeader
  simp [hbase, hfee, hgas, initialBaseFee]

/-- A parent of thirty million gas, half full, without a base fee: the
header the builder makes on it is refused. -/
theorem validateBlockHeader_payloadHeader_thirty_million_no_baseFee :
    validateBlockHeader (fun _ => .replicate 32 0)
        (payloadHeader { (default : BlockHeader) with gasLimit := 30000000, gasUsed := 15000000 }
          { shanghaiTime := none, cancunTime := none }
          { parent := .replicate 32 0, timestamp := 12, feeRecipient := .replicate 20 0,
            random := .replicate 32 0, withdrawals := none, beaconRoot := none }
          (.replicate 32 0) (.replicate 32 0) (.replicate 32 0))
        { (default : BlockHeader) with gasLimit := 30000000, gasUsed := 15000000 } =
      .error .baseFeePerGasIncorrect :=
  validateBlockHeader_payloadHeader_of_no_baseFee _ (by decide) (by decide) rfl (by decide)

theorem computeRoot_nil {ε : Type} : (computeRoot keccak [] : Outcome ε H256) =
    .ok (Ethrex.Mpt.Trie.emptyTrieHash keccak) := rfl

theorem createPayload_eq_ok {β : Type} (store : PayloadStore β) {storage : β}
    (hparent : store.getBlockHeaderByHash storage args.parent = .ok (some parent))
    (hconfig : store.getChainConfig storage = .ok config)
    (hwithdrawals : (computeWithdrawalsRoot keccak (args.withdrawals.getD []) : Outcome ChainError H256) =
      .ok withdrawalsRoot) :
    createPayload store keccak args storage =
      .ok { header := payloadHeader parent config args (Ethrex.Mpt.Trie.emptyTrieHash keccak)
              (Ethrex.Mpt.Trie.emptyTrieHash keccak) withdrawalsRoot
            body := { transactions := [], ommers := [], withdrawals := args.withdrawals } } := by
  unfold createPayload
  rw [hparent, hconfig]
  simp only [computeTransactionsRoot, computeReceiptsRoot, List.zipIdx_nil, List.map_nil, computeRoot_nil,
    hwithdrawals, Outcome.pure_eq_ok, Outcome.ok_bind]

/-- What a returned block's header is: the roots of no transactions and no
receipts, and some withdrawals root. -/
theorem createPayload_header {β : Type} {store : PayloadStore β} {storage : β} {block : Block}
    (hparent : store.getBlockHeaderByHash storage args.parent = .ok (some parent))
    (hconfig : store.getChainConfig storage = .ok config)
    (hblock : createPayload store keccak args storage = .ok block) :
    ∃ withdrawalsRoot, block.header = payloadHeader parent config args
      (Ethrex.Mpt.Trie.emptyTrieHash keccak) (Ethrex.Mpt.Trie.emptyTrieHash keccak) withdrawalsRoot := by
  unfold createPayload at hblock
  rw [hparent, hconfig] at hblock
  simp only [computeTransactionsRoot, computeReceiptsRoot, List.zipIdx_nil, List.map_nil, computeRoot_nil,
    Outcome.pure_eq_ok, Outcome.ok_bind] at hblock
  -- only a computed withdrawals root lets the block out
  cases hw : (computeWithdrawalsRoot keccak (args.withdrawals.getD []) : Outcome ChainError H256) with
  | ok withdrawalsRoot =>
    rw [hw, Outcome.ok_bind, Outcome.ok.injEq] at hblock
    exact ⟨withdrawalsRoot, by rw [← hblock]⟩
  | err e =>
    rw [hw, Outcome.err_bind] at hblock
    cases hblock
  | panic =>
    rw [hw, Outcome.panic_bind] at hblock
    cases hblock

end Header

/-- The block `create_payload` returns, against the validator: its header
passes `validate_block_header` for a parent with a base fee whose gas limit
is at least 5000 and fits the validator's arithmetic; under Cancun its blob
fields pass exactly when a beacon root is given; its gas limit is the
parent's moved down by the largest allowed step, to no less than 5000; and
block after block that limit reaches 5000. -/
theorem createPayload_header_against_validator {β : Type} (store : PayloadStore β) (keccak : Bytes → H256)
    (args : BuildPayloadArgs) (storage : β) (parent : BlockHeader) (config : ChainConfig) (block : Block)
    (hparent : store.getBlockHeaderByHash storage args.parent = .ok (some parent))
    (hconfig : store.getChainConfig storage = .ok config)
    (hblock : createPayload store keccak args storage = .ok block) :
    (5000 ≤ parent.gasLimit.toNat → parent.gasLimit.toNat + parent.gasLimit.toNat / 1024 < 2 ^ 64 →
      parent.baseFeePerGas.isSome → parent.number.toNat + 1 < 2 ^ 64 → parent.timestamp < args.timestamp →
      parent.computeBlockHash keccak = args.parent → validateBlockHeader keccak block.header parent = .ok ()) ∧
    (config.isCancunActivated args.timestamp = true →
      (validateCancunHeaderFields block.header parent = .ok () ↔ args.beaconRoot.isSome)) ∧
    (5000 ≤ parent.gasLimit.toNat →
      block.header.gasLimit.toNat = max (parent.gasLimit.toNat - (parent.gasLimit.toNat / 1024 - 1)) 5000) ∧
    (∀ p : UInt64, 5000 ≤ p.toNat → ∃ n, (fun g => calcGasLimit g defaultBuilderGasCeil)^[n] p = minGasLimit) := by
  obtain ⟨withdrawalsRoot, hheader⟩ := createPayload_header keccak hparent hconfig hblock
  rw [hheader]
  refine ⟨?_, ?_, ?_, iterate_calcGasLimit_eq_minGasLimit⟩
  · intro hlimit hfit hbase hnumber htime hhash
    exact validateBlockHeader_payloadHeader keccak hlimit hfit hbase hnumber htime hhash
  · intro hcancun
    rw [validateCancunHeaderFields_payloadHeader hcancun]
    cases args.beaconRoot <;> simp
  · intro hlimit
    rw [payloadHeader, calcGasLimit_toNat _ _ hlimit]
    rfl

/-! ## Thirty million gas, as the builder's ceiling and as the parent's -/

/-- A hash that is zero everywhere: enough to link a header to its parent. -/
def zeroKeccak (_ : Bytes) : H256 := .replicate 32 0

/-- A parent at thirty million gas, half full, at the initial base fee. -/
def thirtyMillionParent : BlockHeader :=
  { (default : BlockHeader) with
    number := 1, gasLimit := 30000000, gasUsed := 15000000, baseFeePerGas := some 1000000000 }

/-- A store that holds that parent, before Shanghai. -/
def thirtyMillionStore : PayloadStore Unit where
  getBlockHeaderByHash _ _ := .ok (some thirtyMillionParent)
  getChainConfig _ := .ok { shanghaiTime := none, cancunTime := none }

/-- A payload on that parent, twelve seconds later. -/
def thirtyMillionArgs : BuildPayloadArgs :=
  { parent := thirtyMillionParent.computeBlockHash zeroKeccak, timestamp := 12,
    feeRecipient := .replicate 20 0, random := .replicate 32 0, withdrawals := none, beaconRoot := none }

theorem createPayload_lowers_thirty_million :
    ∃ block, createPayload thirtyMillionStore zeroKeccak thirtyMillionArgs () = .ok block ∧
      validateBlockHeader zeroKeccak block.header thirtyMillionParent = .ok () ∧
      block.header.gasLimit = 29970705 := by
  obtain ⟨block, hblock⟩ : ∃ block, createPayload thirtyMillionStore zeroKeccak thirtyMillionArgs () = .ok block :=
    ⟨_, createPayload_eq_ok zeroKeccak thirtyMillionStore rfl rfl rfl⟩
  have h := createPayload_header_against_validator thirtyMillionStore zeroKeccak thirtyMillionArgs ()
    thirtyMillionParent _ block rfl rfl hblock
  refine ⟨block, hblock, h.1 (by decide) (by decide) rfl (by decide) (by decide) rfl, ?_⟩
  apply UInt64.toNat_inj.mp
  rw [h.2.2.1 (by decide)]
  rfl

end Ethrex.Blockchain
