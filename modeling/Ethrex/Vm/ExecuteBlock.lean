/-
# `Ethrex.Vm.ExecuteBlock` — `execute_block` with the `levm` feature

`execute_block` (`crates/vm/vm.rs`) runs a block's transactions through
LEVM and returns their receipts and the account updates to apply to the
parent state.  Before the transactions it may make the EIP-4788 system call,
and after them it credits the withdrawals; both go through revm and change
only the `EvmState` they are given.

Every transaction runs through `execute_tx_levm` on one `StoreWrapper`,
the store read at the parent block, with an empty `CacheDB` of its own.  No
transaction sees what an earlier one wrote: the block's account updates are
each transaction's updates against the parent state, one after the other
(`executeTxs_eq_ok`): two transfers from one sender both start from the
sender's parent balance and nonce.  A transaction that `execute_tx_levm`
rejects stops the block at `.unwrap()`, a panic and not an `Err`
(`executeTxs_eq_panic`, `executeBlock_runs_on_parent`); a dynamic-fee
transaction in a block without a base fee is one
(`executeTxLevm_of_baseFee_none`).

LEVM itself (`VM::new`, `VM::transact`) and the revm calls are parameters:
`Levm` and `Revm`.  The `EvmState::Execution` variant, which the L2 prover
uses, is not modelled: `database()` is a parameter that may be absent.
`u64` arithmetic wraps, as in a release build.
-/
import Ethrex.Types.Signing
import Ethrex.Types.Block
import Ethrex.Types.Receipt
import Ethrex.Levm.Storage

namespace Ethrex.Vm

open Ethrex.Rlp (Bytes H256 Address U256)
open Ethrex.Types
open Ethrex.Levm (VMError StorageSlot)

/-! ## Forks -/

/-- `Fork`: the forks `get_fork` tells apart. -/
inductive Fork where
  | paris
  | shanghai
  | cancun
  deriving DecidableEq, Repr

/-- `ChainConfig`: the activation times `get_fork` reads, and the block
`is_eip155_activated` reads (none, as `Default` leaves it, where it is not
given). -/
structure ChainConfig where
  shanghaiTime : Option UInt64
  cancunTime : Option UInt64
  eip155Block : Option UInt64 := none
  deriving DecidableEq

/-- `ChainConfig::is_shanghai_activated`. -/
def ChainConfig.isShanghaiActivated (self : ChainConfig) (blockTimestamp : UInt64) : Bool :=
  self.shanghaiTime.any (· ≤ blockTimestamp)

/-- `ChainConfig::is_cancun_activated`. -/
def ChainConfig.isCancunActivated (self : ChainConfig) (blockTimestamp : UInt64) : Bool :=
  self.cancunTime.any (· ≤ blockTimestamp)

/-- `ChainConfig::is_eip155_activated`. -/
def ChainConfig.isEip155Activated (self : ChainConfig) (blockNumber : UInt64) : Bool :=
  self.eip155Block.any (· ≤ blockNumber)

/-- `ChainConfig::get_fork`. -/
def ChainConfig.getFork (self : ChainConfig) (blockTimestamp : UInt64) : Fork :=
  if self.isCancunActivated blockTimestamp then .cancun
  else if self.isShanghaiActivated blockTimestamp then .shanghai
  else .paris

/-- `revm::primitives::SpecId`: the three that `spec_id` returns. -/
inductive SpecId where
  | merge
  | shanghai
  | cancun
  deriving DecidableEq, Repr

/-- `spec_id`. -/
def specId (chainConfig : ChainConfig) (blockTimestamp : UInt64) : SpecId :=
  match chainConfig.getFork blockTimestamp with
  | .cancun => .cancun
  | .shanghai => .shanghai
  | .paris => .merge

/-! ## What LEVM reads and returns -/

/-- A `u64` as a `U256`. -/
def u256OfU64 (x : UInt64) : U256 := BitVec.ofNat 256 x.toNat

/-- `ethrex_levm::Environment`. -/
structure Environment where
  origin : Address
  refundedGas : UInt64
  gasLimit : UInt64
  blockNumber : U256
  coinbase : Address
  timestamp : U256
  prevRandao : Option H256
  chainId : U256
  baseFeePerGas : U256
  gasPrice : U256
  blockExcessBlobGas : Option U256
  blockBlobGasUsed : Option U256
  txBlobHashes : List H256
  txMaxPriorityFeePerGas : Option U256
  txMaxFeePerGas : Option U256
  txMaxFeePerBlobGas : Option U256
  blockGasLimit : UInt64
  transientStorage : Address → U256 → U256

/-- `ethrex_levm::AccountInfo`. -/
structure LevmAccountInfo where
  balance : U256
  bytecode : Bytes
  nonce : UInt64

/-- `ethrex_levm::Account`: its info and the slots it touched. -/
structure LevmAccount where
  info : LevmAccountInfo
  storage : List (H256 × StorageSlot)

/-- `TxResult`. -/
inductive TxResult where
  | success
  | revert (e : VMError)

/-- `TransactionReport`. -/
structure TransactionReport where
  result : TxResult
  newState : List (Address × LevmAccount)
  gasUsed : UInt64
  gasRefunded : UInt64
  output : Bytes
  logs : List Log
  createdAddress : Option Address

/-- `CacheDB`: the accounts a transaction has loaded or written. -/
def CacheDB : Type := List (Address × LevmAccount)

/-- `CacheDB::default()`. -/
def CacheDB.empty : CacheDB := []

/-- `StoreWrapper`: a store read at the post-state of one block. -/
structure StoreWrapper (S : Type) where
  store : S
  blockHash : H256

/-- LEVM, as what `VM::new` and `VM::transact` do, over the database type and
the type of a prepared `VM`. -/
structure Levm (Db Vm : Type) where
  new : TxKind → Environment → U256 → Bytes → Db → CacheDB → AccessList → Except VMError Vm
  transact : Vm → Except VMError TransactionReport

/-! ## What the store is given -/

/-- `ethrex_core::types::AccountInfo`. -/
structure AccountInfo where
  codeHash : H256
  balance : U256
  nonce : UInt64

/-- `AccountUpdate`. -/
structure AccountUpdate where
  address : Address
  removed : Bool
  info : Option AccountInfo
  code : Option Bytes
  addedStorage : List (H256 × U256)

/-- The update `execute_block` makes of one account of a report's new state:
never removed, its info with the hash of its code, its code unless empty,
and the current value of each slot it touched. -/
def accountUpdateOf (keccak : Bytes → H256) (entry : Address × LevmAccount) : AccountUpdate :=
  let (address, account) := entry
  { address, removed := false,
    info := some { codeHash := keccak account.info.bytecode, balance := account.info.balance,
                   nonce := account.info.nonce },
    code := if account.info.bytecode.isEmpty then none else some account.info.bytecode,
    addedStorage := account.storage.map fun (key, value) => (key, value.currentValue) }

/-! ## revm -/

/-- `EvmError`, over the store's error type. -/
inductive EvmError (StoreError : Type) where
  | transaction (msg : String)
  | header (msg : String)
  | dB (e : StoreError)
  | custom (msg : String)
  | precompile (msg : String)

/-- revm's `BlockEnv`, as `block_env` fills it. -/
structure BlockEnv where
  number : U256
  coinbase : Address
  timestamp : U256
  gasLimit : U256
  basefee : U256
  difficulty : U256
  prevrandao : Option H256
  excessBlobGas : UInt64

/-- `INITIAL_BASE_FEE`. -/
def initialBaseFee : UInt64 := 1000000000

/-- `block_env`. -/
def blockEnv (header : BlockHeader) : BlockEnv :=
  { number := u256OfU64 header.number, coinbase := header.coinbase,
    timestamp := u256OfU64 header.timestamp, gasLimit := u256OfU64 header.gasLimit,
    basefee := u256OfU64 (header.baseFeePerGas.getD initialBaseFee),
    difficulty := header.difficulty, prevrandao := some header.prevRandao,
    excessBlobGas := header.excessBlobGas.getD 0 }

/-- The revm state `execute_block` is given, as what it does to it. -/
structure Revm (σ S StoreError : Type) where
  /-- `EvmState::chain_config`. -/
  chainConfig : σ → Except (EvmError StoreError) ChainConfig
  /-- `EvmState::database`. -/
  database : σ → Option S
  /-- The system call of EIP-4788 under a block environment, with the beacon
  root as calldata: `transact` and `commit` of revm. -/
  systemCall : σ → BlockEnv → H256 → SpecId → Except (EvmError StoreError) σ
  /-- `State::increment_balances`. -/
  incrementBalances : σ → List (Address × Nat) → Except StoreError σ

variable {σ S StoreError : Type} (revm : Revm σ S StoreError)

/-- `beacon_root_contract_call`: the block environment with a zero base fee
and a gas limit of 30 million. -/
def beaconRootContractCall (state : σ) (header : BlockHeader) (specId : SpecId) :
    Except (EvmError StoreError) σ :=
  match header.parentBeaconBlockRoot with
  | none => .error (.header "parent_beacon_block_root field is missing")
  | some beaconRoot =>
    revm.systemCall state { blockEnv header with basefee := 0, gasLimit := 30000000 } beaconRoot specId

/-- `GWEI_TO_WEI`. -/
def gweiToWei : Nat := 1000000000

/-- `process_withdrawals`: every non-zero withdrawal credited in wei. -/
def processWithdrawals (state : σ) (withdrawals : List Withdrawal) : Except StoreError σ :=
  revm.incrementBalances state
    ((withdrawals.filter (·.amount > 0)).map fun w => (w.address, w.amount.toNat * gweiToWei))

/-! ## `execute_tx_levm` and `execute_block` -/

variable {SK PK Sig Db Vm : Type} (ctx : Secp256k1Context SK PK Sig) (keccak : Bytes → H256)
  (levm : Levm Db Vm)

/-- `Result::unwrap`: an error is a panic. -/
def unwrapResult {ε ε' α : Type} : Outcome ε α → Outcome ε' α
  | .ok a => .ok a
  | .err _ => .panic
  | .panic => .panic

/-- `execute_tx_levm`.  The environment's fields are evaluated in order:
the sender, then the `unwrap` of the chain id. -/
def executeTxLevm (tx : Transaction) (blockHeader : BlockHeader) (db : Db) :
    Outcome VMError TransactionReport := do
  let gasPrice ← match tx.effectiveGasPrice blockHeader.baseFeePerGas with
    | some gasPrice => pure (u256OfU64 gasPrice)
    | none => throw .invalidTransaction
  let origin ← tx.sender ctx keccak
  let chainId ← tx.chainId >>= Outcome.unwrap
  let env : Environment :=
    { origin, refundedGas := 0, gasLimit := tx.gasLimit,
      blockNumber := u256OfU64 blockHeader.number, coinbase := blockHeader.coinbase,
      timestamp := u256OfU64 blockHeader.timestamp, prevRandao := some blockHeader.prevRandao,
      chainId := u256OfU64 chainId,
      baseFeePerGas := u256OfU64 (blockHeader.baseFeePerGas.getD 0), gasPrice,
      blockExcessBlobGas := blockHeader.excessBlobGas.map u256OfU64,
      blockBlobGasUsed := blockHeader.blobGasUsed.map u256OfU64,
      txBlobHashes := tx.blobVersionedHashes,
      txMaxPriorityFeePerGas := tx.maxPriorityFee.map u256OfU64,
      txMaxFeePerGas := tx.maxFeePerGas.map u256OfU64,
      txMaxFeePerBlobGas := tx.maxFeePerBlobGas, blockGasLimit := blockHeader.gasLimit,
      transientStorage := fun _ _ => 0 }
  let vm ← Outcome.ofExcept (levm.new tx.to env tx.value tx.data db CacheDB.empty tx.accessList)
  Outcome.ofExcept (levm.transact vm)

/-- The loop of `execute_block` over the transactions, from the cumulative
gas used so far: each runs on the same database, its receipt records the
running total, and its new state becomes account updates. -/
def executeTxs (blockHeader : BlockHeader) (db : Db) :
    List Transaction → UInt64 → Outcome (EvmError StoreError) (List Receipt × List AccountUpdate)
  | [], _ => pure ([], [])
  | tx :: txs, cumulativeGasUsed => do
    let result ← unwrapResult (executeTxLevm ctx keccak levm tx blockHeader db)
    let cumulativeGasUsed := cumulativeGasUsed + result.gasUsed
    let receipt := Receipt.new keccak tx.txType (result.result matches .success) cumulativeGasUsed
      result.logs
    let (receipts, accountUpdates) ← executeTxs blockHeader db txs cumulativeGasUsed
    pure (receipt :: receipts, result.newState.map (accountUpdateOf keccak) ++ accountUpdates)

/-- The first half of `execute_block`: the chain configuration, the beacon
root call under Cancun when the header has a root, and the store of the
state. -/
def beginBlock (block : Block) (state : σ) : Outcome (EvmError StoreError) (σ × S) := do
  let specId := specId (← Outcome.ofExcept (revm.chainConfig state)) block.header.timestamp
  let state ←
    if block.header.parentBeaconBlockRoot.isSome && specId == .cancun then
      Outcome.ofExcept (beaconRootContractCall revm state block.header specId)
    else pure state
  let store ← Outcome.unwrap (revm.database state)
  pure (state, store)

/-- `execute_block`: the receipts and the account updates, and the state
the beacon call and the withdrawals were applied to. -/
def executeBlock (levm : Levm (StoreWrapper S) Vm) (block : Block) (state : σ) :
    Outcome (EvmError StoreError) ((List Receipt × List AccountUpdate) × σ) := do
  let (state, store) ← beginBlock revm block state
  let storeWrapper : StoreWrapper S := { store, blockHash := block.header.parentHash }
  let out ← executeTxs ctx keccak levm block.header storeWrapper
    block.body.transactions 0
  let state ← match block.body.withdrawals with
    | some withdrawals => Outcome.ofExcept ((processWithdrawals revm state withdrawals).mapError .dB)
    | none => pure state
  pure (out, state)

/-! ## A transaction the block cannot run -/

theorem effectiveGasPrice_of_baseFee_none {tx : Transaction}
    (hty : tx.txType = .eip1559 ∨ tx.txType = .eip4844) : tx.effectiveGasPrice none = none := by
  cases tx with
  | eip1559Transaction t => rfl
  | eip4844Transaction t => rfl
  | legacyTransaction t => simp [Transaction.txType] at hty
  | eip2930Transaction t => simp [Transaction.txType] at hty
  | privilegedL2Transaction t => simp [Transaction.txType] at hty

/-- `execute_tx_levm` rejects a dynamic-fee transaction in a block without a
base fee, whatever LEVM would do with it. -/
theorem executeTxLevm_of_baseFee_none {tx : Transaction} {blockHeader : BlockHeader}
    (hty : tx.txType = .eip1559 ∨ tx.txType = .eip4844) (hbase : blockHeader.baseFeePerGas = none)
    (db : Db) : executeTxLevm ctx keccak levm tx blockHeader db = .err .invalidTransaction := by
  rw [executeTxLevm, hbase, effectiveGasPrice_of_baseFee_none hty]
  rfl

/-! ## The loop over the transactions -/

section Loop

variable {blockHeader : BlockHeader} {db : Db}

theorem unwrapResult_eq_ok {ε ε' α : Type} {x : Outcome ε α} {a : α} :
    (unwrapResult x : Outcome ε' α) = .ok a ↔ x = .ok a := by
  cases x <;> simp [unwrapResult]

/-- **A rejected transaction panics the block.**  Whatever the transactions
before it do, the loop reaches it or has panicked already. -/
theorem executeTxs_eq_panic {tx : Transaction} {e : VMError}
    (hfail : executeTxLevm ctx keccak levm tx blockHeader db = .err e) :
    ∀ {txs : List Transaction} {c : UInt64}, tx ∈ txs →
      (executeTxs ctx keccak levm blockHeader db txs c : Outcome (EvmError StoreError) _) = .panic := by
  intro txs
  induction txs with
  | nil => exact fun h => absurd h List.not_mem_nil
  | cons t txs ih =>
    intro c h
    rw [executeTxs]
    rcases List.mem_cons.mp h with rfl | hmem
    · rw [hfail]
      rfl
    · cases hrun : executeTxLevm ctx keccak levm t blockHeader db with
      | ok r =>
        simp only [unwrapResult, Outcome.ok_bind]
        rw [ih hmem]
        rfl
      | err e' => rfl
      | panic => rfl

/-- **Every transaction runs on the database it was given.**  A loop that
returns has run each transaction through `execute_tx_levm` on the same
database, and its account updates are theirs, one after the other. -/
theorem executeTxs_eq_ok :
    ∀ {txs : List Transaction} {c : UInt64} {receipts : List Receipt} {updates : List AccountUpdate},
      (executeTxs ctx keccak levm blockHeader db txs c : Outcome (EvmError StoreError) _) =
          .ok (receipts, updates) →
        ∃ reports, List.Forall₂ (fun tx r => executeTxLevm ctx keccak levm tx blockHeader db = .ok r)
            txs reports ∧
          updates = (reports.map fun r => r.newState.map (accountUpdateOf keccak)).flatten
  | [], _, _, _, h => by
    simp only [executeTxs, Outcome.pure_eq_ok, Outcome.ok.injEq, Prod.mk.injEq] at h
    exact ⟨[], .nil, h.2.symm⟩
  | tx :: txs, c, receipts, updates, h => by
    rw [executeTxs] at h
    obtain ⟨r, hr, h⟩ := Outcome.bind_eq_ok.mp h
    obtain ⟨⟨receipts', updates'⟩, hrest, h⟩ := Outcome.bind_eq_ok.mp h
    obtain ⟨reports, hall, rfl⟩ := executeTxs_eq_ok hrest
    simp only [Outcome.pure_eq_ok, Outcome.ok.injEq, Prod.mk.injEq] at h
    refine ⟨r :: reports, .cons (unwrapResult_eq_ok.mp hr) hall, ?_⟩
    rw [← h.2, List.map_cons, List.flatten_cons]
end Loop

/-! ## `execute_block` -/

/-- What a returning `execute_block` did: its first half returned, and the
loop over the transactions, run on the store read at the parent block,
returned what the block returns. -/
theorem executeBlock_eq_ok (levm : Levm (StoreWrapper S) Vm) {block : Block} {state state'' : σ}
    {out : List Receipt × List AccountUpdate}
    (h : executeBlock revm ctx keccak levm block state = .ok (out, state'')) :
    ∃ state' store, beginBlock revm block state = .ok (state', store) ∧
      (executeTxs ctx keccak levm block.header ⟨store, block.header.parentHash⟩
        block.body.transactions 0 : Outcome (EvmError StoreError) _) = .ok out := by
  rw [executeBlock] at h
  obtain ⟨⟨state', store⟩, hbegin, h⟩ := Outcome.bind_eq_ok.mp h
  obtain ⟨out', hout, h⟩ := Outcome.bind_eq_ok.mp h
  -- the withdrawals change the state, not what the transactions returned
  have hout' : out' = out := by
    split at h
    · obtain ⟨_, -, h⟩ := Outcome.bind_eq_ok.mp h
      simp only [Outcome.pure_eq_ok, Outcome.ok.injEq, Prod.mk.injEq] at h
      exact h.1
    · simp only [Outcome.pure_eq_ok, Outcome.ok_bind, Outcome.ok.injEq, Prod.mk.injEq] at h
      exact h.1
  exact ⟨state', store, hbegin, hout' ▸ hout⟩

/-- **`execute_block` runs each transaction on the parent state, and panics
on one it rejects.**  Once the chain configuration, the beacon root call
and the store are through, a transaction that `execute_tx_levm` rejects
makes the block panic; and a block that returns has run every transaction
on the store read at the parent block, its account updates being theirs,
one after the other. -/
theorem executeBlock_runs_on_parent (levm : Levm (StoreWrapper S) Vm) {block : Block}
    {state state' : σ} {store : S} (hbegin : beginBlock revm block state = .ok (state', store)) :
    (∀ tx ∈ block.body.transactions, ∀ e,
      executeTxLevm ctx keccak levm tx block.header ⟨store, block.header.parentHash⟩ = .err e →
        executeBlock revm ctx keccak levm block state = .panic) ∧
    (∀ out state'', executeBlock revm ctx keccak levm block state = .ok (out, state'') →
      ∃ reports, List.Forall₂ (fun tx r =>
          executeTxLevm ctx keccak levm tx block.header ⟨store, block.header.parentHash⟩ = .ok r)
          block.body.transactions reports ∧
        out.2 = (reports.map fun r => r.newState.map (accountUpdateOf keccak)).flatten) := by
  refine ⟨fun tx htx e hfail => ?_, fun out state'' h => ?_⟩
  · rw [executeBlock, hbegin, Outcome.ok_bind]
    dsimp only
    rw [executeTxs_eq_panic ctx keccak levm hfail htx]
    rfl
  · obtain ⟨_, _, hb, hout⟩ := executeBlock_eq_ok revm ctx keccak levm h
    -- the first half is deterministic: the loop ran on the store it gave
    rw [hbegin, Outcome.ok.injEq, Prod.mk.injEq] at hb
    obtain ⟨-, rfl⟩ := hb
    exact executeTxs_eq_ok ctx keccak levm hout

/-- A revm state of nothing: the chain is before Shanghai, the store is
there, and the system call and the withdrawals change nothing. -/
def unitRevm : Revm Unit Unit Unit where
  chainConfig _ := .ok { shanghaiTime := none, cancunTime := none }
  database _ := some ()
  systemCall s _ _ _ := .ok s
  incrementBalances s _ := .ok s

/-- A LEVM that rejects every transaction. -/
def rejectingLevm : Levm (StoreWrapper Unit) Unit where
  new _ _ _ _ _ _ _ := .error .invalidTransaction
  transact _ := .error .invalidTransaction

/-- A block without a base fee holding one EIP-1559 transaction. -/
def blockWithoutBaseFee : Block :=
  { header := default,
    body := { transactions := [.eip1559Transaction
                { chainId := 1, nonce := 0, maxPriorityFeePerGas := 1, maxFeePerGas := 1,
                  gasLimit := 21000, «to» := .create, value := 0, data := [], accessList := [],
                  signatureYParity := false, signatureR := 1, signatureS := 1 }],
              ommers := [], withdrawals := none } }

theorem executeBlock_panics_without_base_fee :
    executeBlock unitRevm rejectingZeroR (fun _ => .replicate 32 0) rejectingLevm
      blockWithoutBaseFee () = .panic :=
  (executeBlock_runs_on_parent unitRevm rejectingZeroR _ rejectingLevm
    (show beginBlock unitRevm blockWithoutBaseFee () = .ok ((), ()) from rfl)).1 _
    (List.mem_singleton_self _) _
    (executeTxLevm_of_baseFee_none rejectingZeroR _ rejectingLevm (Or.inl rfl) rfl _)

end Ethrex.Vm
