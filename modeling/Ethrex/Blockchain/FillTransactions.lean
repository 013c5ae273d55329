/-
# `Ethrex.Blockchain.FillTransactions` — choosing a block's transactions

`fill_transactions` (`blockchain/payload.rs`) fills a payload from the
mempool.  It fetches the plain and the blob transactions that pass the
mempool's filters, each set grouped by sender, makes a `TransactionQueue`
of each, and loops: while the block has gas for one more transaction, it
takes the head that goes first of the two queues (higher tip, then earlier
arrival), skips its sender when the head's gas limit is above the gas
left, drops its sender when it is replay-protected before EIP-155, drops
its sender when execution fails, and otherwise includes it and moves its
sender on to the next transaction.

The model keeps the loop as the source has it: `fillPass` is one pass of
the body, `fillLoop` the `loop`, run on `FillState` (the context, the two
queues, and the `debug!` lines that name a transaction, which are what
says, pass by pass, what became of each head).  Execution, the EVM state
and the store are an oracle, `PayloadVm`.

What is proved, for every pair of grouped sets and every oracle
(`fill_transactions_selects`):

* the loop ends within one pass per transaction, plus one;
* in every state it reaches, each sender's transactions of each queue
  were included as a prefix of the sender's list, in order, with at most
  one more transaction after them, not included, and nothing after that
  (`SenderTrail`);
* every head a pass takes goes no later than any head of either queue,
  its tip the effective tip, and an included one fit the gas left;
* the blob gas never passes `MAX_BLOB_GAS_PER_BLOCK`, and the gas left
  never passes the gas limit.

The prefix property is a property of each queue.  A sender with both plain
and blob transactions has one list in each queue, and a failure in one
queue does not stop its transactions in the other
(`fill_transactions_across_queues`).
-/
import Ethrex.Blockchain.TransactionQueue
import Ethrex.Types.Signing
import Ethrex.Levm.Arithmetic
import Ethrex.Lib.Loop

namespace Ethrex.Types

open Ethrex.Rlp (Bytes H256)

/-- `Transaction::protected` (`protected` is a Lean keyword): a legacy
transaction whose `v` fits in a byte is replay-protected unless `v` is 27,
28, 1 or 0; every other transaction is. -/
def Transaction.isProtected : Transaction → Bool
  | .legacyTransaction tx =>
    if Levm.bits tx.v ≤ 8 then
      let v := tx.v.toNat
      v != 27 && v != 28 && v != 1 && v != 0
    else true
  | _ => true

/-- `Transaction::compute_hash`. -/
def Transaction.computeHash (keccak : Bytes → H256) (tx : Transaction) : H256 :=
  keccak tx.encodeCanonical

theorem saturatingSub_le (a b : UInt64) : saturatingSub a b ≤ a := by
  unfold saturatingSub
  split
  · rename_i h
    exact UInt64.sub_le h
  · exact UInt64.zero_le

end Ethrex.Types

namespace Ethrex.Blockchain

open Ethrex.Rlp (Bytes H256 Address U256)
open Ethrex.Types
open Ethrex.Vm

/-- `TX_GAS_COST`. -/
def txGasCost : UInt64 := 21000

/-! ## What the loop reads -/

/-- `BlobsBundle`: the blobs, their commitments and proofs, fixed-size byte
arrays the loop only counts. -/
structure BlobsBundle where
  blobs : List Bytes
  commitments : List Bytes
  proofs : List Bytes

/-- `BlobsBundle::default`. -/
def BlobsBundle.empty : BlobsBundle := ⟨[], [], []⟩

/-- `impl AddAssign for BlobsBundle`. -/
def BlobsBundle.add (self rhs : BlobsBundle) : BlobsBundle :=
  ⟨self.blobs ++ rhs.blobs, self.commitments ++ rhs.commitments, self.proofs ++ rhs.proofs⟩

/-- `ExecutionResult`, with the fields the loop reads. -/
inductive ExecutionResult where
  | success (gasUsed : UInt64) (logs : List Log)
  | revert (gasUsed : UInt64)
  | halt (gasUsed : UInt64)

/-- `ExecutionResult::is_success`. -/
def ExecutionResult.isSuccess : ExecutionResult → Bool
  | .success .. => true
  | _ => false

/-- `ExecutionResult::gas_used`. -/
def ExecutionResult.gasUsed : ExecutionResult → UInt64
  | .success gasUsed _ | .revert gasUsed | .halt gasUsed => gasUsed

/-- `ExecutionResult::logs`. -/
def ExecutionResult.logs : ExecutionResult → List Log
  | .success _ logs => logs
  | _ => []

/-- `PendingTxFilter`. -/
structure PendingTxFilter where
  minTip : Option UInt64
  baseFee : Option UInt64
  blobFee : Option U256
  onlyPlainTxs : Bool
  onlyBlobTxs : Bool

/-- What `fill_transactions` reads of the EVM state (`σ`) and of the store
behind it (`β`, its pools as they stand). -/
structure PayloadVm (σ β : Type) where
  /-- `EvmState::chain_config`. -/
  chainConfig : σ → Except (EvmError StoreError) ChainConfig
  /-- `execute_tx`: the result, and the state with the transaction's changes. -/
  executeTx : Transaction → BlockHeader → σ → SpecId →
    Except (EvmError StoreError) (ExecutionResult × σ)
  /-- `mempool::filter_transactions`: the pool's transactions that pass the
  filter, grouped by sender. -/
  filterTransactions : β → PendingTxFilter →
    Except StoreError (EntryMap Address (List MempoolTransaction))
  /-- `Store::get_blobs_bundle_from_pool`. -/
  getBlobsBundleFromPool : β → H256 → Except StoreError (Option BlobsBundle)
  /-- `mempool::remove_transaction`. -/
  removeTransaction : β → H256 → Except StoreError β

/-- `PayloadBuildContext`.  `store` is `context.store()`, the store behind
the EVM state, absent when the state runs on an execution database. -/
structure PayloadBuildContext (σ β : Type) where
  payload : Block
  evmState : σ
  remainingGas : UInt64
  receipts : List Receipt
  blockValue : U256
  baseFeePerBlobGas : U256
  blobsBundle : BlobsBundle
  store : Option β

namespace PayloadBuildContext

variable {σ β : Type}

/-- `PayloadBuildContext::base_fee_per_gas`. -/
def baseFeePerGas (self : PayloadBuildContext σ β) : Option UInt64 :=
  self.payload.header.baseFeePerGas

/-- `PayloadBuildContext::block_number`. -/
def blockNumber (self : PayloadBuildContext σ β) : UInt64 := self.payload.header.number

/-- What `PayloadBuildContext::new` leaves for the loop, and `create_payload`
before it: all of the gas limit left, no blobs and no blob gas used. -/
structure Fresh (context : PayloadBuildContext σ β) : Prop where
  remainingGas : context.remainingGas = context.payload.header.gasLimit
  blobs : context.blobsBundle.blobs = []
  blobGasUsed : context.payload.header.blobGasUsed.getD 0 = 0

end PayloadBuildContext

section Loop

variable {σ β : Type} (vm : PayloadVm σ β) (keccak : Bytes → H256)

/-- `mempool::remove_transaction` of a transaction's hash, in the store
`context.store()`, or `MissingStore`. -/
def PayloadBuildContext.removeTransaction (self : PayloadBuildContext σ β) (tx : Transaction) :
    Outcome ChainError (PayloadBuildContext σ β) :=
  match self.store with
  | none => .err (.storeError .missingStore)
  | some store =>
    match vm.removeTransaction store (tx.computeHash keccak) with
    | .ok store => .ok { self with store := some store }
    | .error e => .err (.storeError e)

/-- `fetch_mempool_transactions`: a queue of the plain and one of the blob
transactions that pass the filters. -/
def fetchMempoolTransactions (context : PayloadBuildContext σ β) :
    Outcome ChainError (TransactionQueue × TransactionQueue) := do
  let txFilter : PendingTxFilter :=
    { minTip := none, baseFee := context.baseFeePerGas, blobFee := some context.baseFeePerBlobGas,
      onlyPlainTxs := false, onlyBlobTxs := false }
  let plainTxFilter := { txFilter with onlyPlainTxs := true }
  let blobTxFilter := { txFilter with onlyBlobTxs := true }
  let store ← Outcome.ofExcept (context.store.okOr
    (.storeError (.custom "no store in the context (is an ExecutionDB being used?)")))
  let plainTxs ← Outcome.ofExcept ((vm.filterTransactions store plainTxFilter).mapError .storeError)
  let plainTxs ← TransactionQueue.new plainTxs context.baseFeePerGas
  let blobTxs ← Outcome.ofExcept ((vm.filterTransactions store blobTxFilter).mapError .storeError)
  let blobTxs ← TransactionQueue.new blobTxs context.baseFeePerGas
  pure (plainTxs, blobTxs)

/-- `apply_plain_transaction`: execute, charge the gas used (saturating),
add the tip to the block value, and write the receipt. -/
def applyPlainTransaction (head : HeadTransaction) (context : PayloadBuildContext σ β) :
    Except ChainError (Receipt × PayloadBuildContext σ β) := do
  let chainConfig ← (vm.chainConfig context.evmState).mapError ChainError.evmError
  let (result, evmState) ← (vm.executeTx head.tx.inner context.payload.header context.evmState
    (specId chainConfig context.payload.header.timestamp)).mapError ChainError.evmError
  let remainingGas := saturatingSub context.remainingGas result.gasUsed
  let blockValue := context.blockValue + u256OfU64 result.gasUsed * u256OfU64 head.tip
  let receipt := Receipt.new keccak head.tx.inner.txType result.isSuccess
    (context.payload.header.gasLimit - remainingGas) result.logs
  pure (receipt, { context with evmState, remainingGas, blockValue })

/-- `apply_blob_transaction`: the transaction's blobs from the pool, refused
past `MAX_BLOB_GAS_PER_BLOCK`, then the plain application and the blob gas.
The blob counts are multiplied as numbers: a vector of 128 KiB blobs holds
fewer than 2^46 of them, so `as u64 * GAS_PER_BLOB` does not wrap.  The
missing-bundle message names the hash, which is not rendered here. -/
def applyBlobTransaction (head : HeadTransaction) (context : PayloadBuildContext σ β) :
    Except ChainError (Receipt × PayloadBuildContext σ β) :=
  match context.store with
  | none => .error (.storeError .missingStore)
  | some store =>
    match vm.getBlobsBundleFromPool store (head.tx.inner.computeHash keccak) with
    | .error e => .error (.storeError e)
    | .ok none => .error (.storeError (.custom "No blobs bundle found for blob tx"))
    | .ok (some blobsBundle) =>
      if (context.blobsBundle.blobs.length + blobsBundle.blobs.length) * gasPerBlob.toNat >
          maxBlobGasPerBlock.toNat then
        .error (.evmError (.custom "max data blobs reached"))
      else do
        let (receipt, context) ← applyPlainTransaction vm keccak head context
        let prevBlobGas := context.payload.header.blobGasUsed.getD 0
        let header := { context.payload.header with
          blobGasUsed := some (prevBlobGas + blobsBundle.blobs.length.toUInt64 * gasPerBlob) }
        pure (receipt, { context with payload := { context.payload with header },
                                      blobsBundle := context.blobsBundle.add blobsBundle })

/-- `apply_transaction`: by the transaction's type. -/
def applyTransaction (head : HeadTransaction) (context : PayloadBuildContext σ β) :
    Except ChainError (Receipt × PayloadBuildContext σ β) :=
  match head.tx.inner with
  | .eip4844Transaction _ => applyBlobTransaction vm keccak head context
  | _ => applyPlainTransaction vm keccak head context

/-- The transaction and its receipt pushed onto the payload. -/
def PayloadBuildContext.addTransaction (self : PayloadBuildContext σ β) (tx : Transaction)
    (receipt : Receipt) : PayloadBuildContext σ β :=
  { self with payload := { self.payload with body := { self.payload.body with
                             transactions := self.payload.body.transactions ++ [tx] } },
              receipts := self.receipts ++ [receipt] }

/-- What a pass did with the head it took, as its `debug!` line says. -/
inductive FillVerdict where
  /-- "Skipping transaction: {}, no gas left" -/
  | skipped
  /-- "Ignoring replay-protected transaction: {}" -/
  | replayProtected
  /-- "Failed to execute transaction: {}, {e}" -/
  | failed
  /-- "Adding transaction: {} to payload" -/
  | included
  deriving DecidableEq, Repr

/-- A `debug!` line that names a transaction: the head, the queue it came
from, and what the pass did with it. -/
structure FillEvent where
  head : HeadTransaction
  isBlob : Bool
  verdict : FillVerdict
  deriving DecidableEq

/-- The loop's state: the context, the two queues, and its log. -/
structure FillState (σ β : Type) where
  context : PayloadBuildContext σ β
  plainTxs : TransactionQueue
  blobTxs : TransactionQueue
  log : List FillEvent

namespace FillState

variable {σ β : Type}

/-- `if is_blob { &mut blob_txs } else { &mut plain_txs }`. -/
def queue (self : FillState σ β) (isBlob : Bool) : TransactionQueue :=
  if isBlob then self.blobTxs else self.plainTxs

/-- A write through the queue `queue` chose. -/
def setQueue (self : FillState σ β) (isBlob : Bool) (txs : TransactionQueue) : FillState σ β :=
  if isBlob then { self with blobTxs := txs } else { self with plainTxs := txs }

/-- A pass's `debug!` line. -/
def record (self : FillState σ β) (head : HeadTransaction) (isBlob : Bool) (verdict : FillVerdict) :
    FillState σ β :=
  { self with log := self.log ++ [⟨head, isBlob, verdict⟩] }

/-- The blob check at the top of each pass: the blob queue is cleared once
the bundle's blobs fill the block's blob gas. -/
def checkBlobGas (self : FillState σ β) : FillState σ β :=
  if !self.blobTxs.isEmpty &&
      self.context.blobsBundle.blobs.length * gasPerBlob.toNat ≥ maxBlobGasPerBlock.toNat then
    { self with blobTxs := self.blobTxs.clear }
  else self

end FillState

/-- The match on the two peeks: the blob head when it goes strictly before
the plain head, the plain head otherwise. -/
def selectHead (plainTxs blobTxs : TransactionQueue) : Option (HeadTransaction × Bool) :=
  match plainTxs.peek, blobTxs.peek with
  | none, none => none
  | none, some tx => some (tx, true)
  | some tx, none => some (tx, false)
  | some a, some b => if b.cmp a = .lt then some (b, true) else some (a, false)

variable (chainConfig : ChainConfig)

/-- One pass of the loop in `fill_transactions`: `none` where it breaks. -/
def fillPass (st : FillState σ β) : Outcome ChainError (Option (FillState σ β)) :=
  if st.context.remainingGas < txGasCost then .ok none
  else
    let st := st.checkBlobGas
    match selectHead st.plainTxs st.blobTxs with
    | none => .ok none
    | some (headTx, isBlob) =>
      if st.context.remainingGas < headTx.tx.inner.gasLimit then
        -- no gas left for it: the sender's transactions are skipped
        .ok (some ((st.setQueue isBlob (st.queue isBlob).pop).record headTx isBlob .skipped))
      else if headTx.tx.inner.isProtected &&
          !chainConfig.isEip155Activated st.context.blockNumber then
        -- the sender's transactions are dropped, the head from the mempool too
        let st := st.setQueue isBlob (st.queue isBlob).pop
        match st.context.removeTransaction vm keccak headTx.tx.inner with
        | .ok context => .ok (some ({ st with context }.record headTx isBlob .replayProtected))
        | .err e => .err e
        | .panic => .panic
      else
        match applyTransaction vm keccak headTx st.context with
        | .error _ => .ok (some ((st.setQueue isBlob (st.queue isBlob).pop).record headTx isBlob .failed))
        | .ok (receipt, context) => do
          let txs ← (st.queue isBlob).shift
          let context ← context.removeTransaction vm keccak headTx.tx.inner
          let context := context.addTransaction headTx.tx.inner receipt
          pure (some ({ st with context }.setQueue isBlob txs |>.record headTx isBlob .included))

/-- The loop of `fill_transactions`, with `fuel` passes at most. -/
def fillLoop (fuel : Nat) (st : FillState σ β) : Option (Outcome ChainError (FillState σ β)) :=
  Outcome.loop (fillPass vm keccak chainConfig) fuel st

/-- The state the loop starts from. -/
def FillState.start (context : PayloadBuildContext σ β) (plainTxs blobTxs : TransactionQueue) :
    FillState σ β :=
  { context, plainTxs, blobTxs, log := [] }

/-- The passes the loop is given: one per transaction in the queues, and
one to break. -/
def fillFuel (plainTxs blobTxs : TransactionQueue) : Nat := plainTxs.size + blobTxs.size + 1

end Loop

/-- `fill_transactions`: the chain configuration, the two queues, and the
loop; the state it breaks on. -/
def fillTransactions {σ β : Type} (vm : PayloadVm σ β) (keccak : Bytes → H256)
    (context : PayloadBuildContext σ β) : Option (Outcome ChainError (FillState σ β)) :=
  match Outcome.ofExcept ((vm.chainConfig context.evmState).mapError ChainError.evmError) with
  | .err e => some (.err e)
  | .panic => some .panic
  | .ok chainConfig =>
    match fetchMempoolTransactions vm context with
    | .err e => some (.err e)
    | .panic => some .panic
    | .ok (plainTxs, blobTxs) =>
      fillLoop vm keccak chainConfig (fillFuel plainTxs blobTxs)
        (FillState.start context plainTxs blobTxs)

/-! ## The loop's state -/

namespace FillState

variable {σ β : Type} {st : FillState σ β}

/-- The transactions of both queues. -/
def size (self : FillState σ β) : Nat := self.plainTxs.size + self.blobTxs.size

@[simp] theorem context_setQueue (b : Bool) (q : TransactionQueue) :
    (st.setQueue b q).context = st.context := by
  unfold setQueue
  split <;> rfl

@[simp] theorem log_setQueue (b : Bool) (q : TransactionQueue) : (st.setQueue b q).log = st.log := by
  unfold setQueue
  split <;> rfl

theorem setQueue_context (b : Bool) (q : TransactionQueue) (c : PayloadBuildContext σ β) :
    ({ st with context := c }.setQueue b q) = { st.setQueue b q with context := c } := by
  cases b <;> rfl

theorem queue_setQueue (b b' : Bool) (q : TransactionQueue) :
    (st.setQueue b q).queue b' = if b' = b then q else st.queue b' := by
  cases b <;> cases b' <;> rfl

theorem size_setQueue (st : FillState σ β) (b : Bool) (q : TransactionQueue) :
    (st.setQueue b q).size + (st.queue b).size = st.size + q.size := by
  cases b
  · show q.size + st.blobTxs.size + st.plainTxs.size = st.plainTxs.size + st.blobTxs.size + q.size
    omega
  · show st.plainTxs.size + q.size + st.blobTxs.size = st.plainTxs.size + st.blobTxs.size + q.size
    omega

@[simp] theorem context_record (h : HeadTransaction) (b : Bool) (v : FillVerdict) :
    (st.record h b v).context = st.context := rfl

@[simp] theorem queue_record (h : HeadTransaction) (b b' : Bool) (v : FillVerdict) :
    (st.record h b v).queue b' = st.queue b' := rfl

@[simp] theorem log_record (h : HeadTransaction) (b : Bool) (v : FillVerdict) :
    (st.record h b v).log = st.log ++ [⟨h, b, v⟩] := rfl

@[simp] theorem size_record (h : HeadTransaction) (b : Bool) (v : FillVerdict) :
    (st.record h b v).size = st.size := rfl

@[simp] theorem context_checkBlobGas : st.checkBlobGas.context = st.context := by
  unfold checkBlobGas
  split <;> rfl

@[simp] theorem log_checkBlobGas : st.checkBlobGas.log = st.log := by
  unfold checkBlobGas
  split <;> rfl

theorem queue_checkBlobGas (st : FillState σ β) (b : Bool) :
    st.checkBlobGas.queue b = st.queue b ∨ st.checkBlobGas.queue b = (st.queue b).clear := by
  unfold checkBlobGas
  split
  · cases b
    · exact .inl rfl
    · exact .inr rfl
  · exact .inl rfl

theorem size_checkBlobGas_le : st.checkBlobGas.size ≤ st.size := by
  unfold checkBlobGas
  split
  · show st.plainTxs.size + 0 ≤ st.plainTxs.size + st.blobTxs.size
    omega
  · exact Nat.le_refl _

end FillState

open FillState

variable {σ β : Type}

/-! ## Which head a pass takes -/

section Select

variable {st : FillState σ β} {head : HeadTransaction} {isBlob : Bool}

theorem selectHead_spec (hsel : selectHead st.plainTxs st.blobTxs = some (head, isBlob)) :
    (st.queue isBlob).peek = some head ∧
      ∀ x, (st.queue !isBlob).peek = some x → (head.cmp x).isLE := by
  unfold selectHead at hsel
  split at hsel
  · cases hsel
  · -- only the blob queue has a head
    rename_i tx hplain hblob
    cases hsel
    refine ⟨hblob, fun x hx => ?_⟩
    change st.plainTxs.peek = some x at hx
    rw [hplain] at hx
    cases hx
  · -- only the plain queue has a head
    rename_i tx hplain hblob
    cases hsel
    refine ⟨hplain, fun x hx => ?_⟩
    change st.blobTxs.peek = some x at hx
    rw [hblob] at hx
    cases hx
  · rename_i a b hplain hblob
    split at hsel
    · -- the blob head goes strictly first
      rename_i hlt
      cases hsel
      refine ⟨hblob, fun x hx => ?_⟩
      change st.plainTxs.peek = some x at hx
      rw [hplain, Option.some.injEq] at hx
      subst hx
      rw [hlt]
      rfl
    · -- otherwise the plain head: \x7b b < a \x7d fails, so \x7b a ≤ b \x7d
      rename_i hnlt
      cases hsel
      refine ⟨hplain, fun x hx => ?_⟩
      change st.blobTxs.peek = some x at hx
      rw [hblob, Option.some.injEq] at hx
      subst hx
      rw [show ∀ a b : HeadTransaction, a.cmp b = (b.cmp a).swap from
        fun _ _ => Std.OrientedCmp.eq_swap, Ordering.isLE_swap]
      exact Ordering.isGE_iff_ne_lt.mpr hnlt

theorem mem_heads_iff (b : Bool) {x : HeadTransaction} :
    x ∈ st.plainTxs.heads ++ st.blobTxs.heads ↔ x ∈ (st.queue b).heads ∨ x ∈ (st.queue !b).heads := by
  rw [List.mem_append]
  cases b
  · rfl
  · exact or_comm

theorem selectHead_first (hvalid : ∀ b, (st.queue b).Valid)
    (hsel : selectHead st.plainTxs st.blobTxs = some (head, isBlob)) :
    ∀ x ∈ st.plainTxs.heads ++ st.blobTxs.heads, (head.cmp x).isLE := by
  obtain ⟨hpeek, hother⟩ := selectHead_spec hsel
  intro x hx
  rcases (mem_heads_iff isBlob).mp hx with hown | hx
  · exact (hvalid isBlob).peek_isLE hpeek x hown
  · cases hheads : (st.queue !isBlob).heads with
    | nil => rw [hheads] at hx; cases hx
    | cons y ys =>
      have hpeek' : (st.queue !isBlob).peek = some y := by
        unfold TransactionQueue.peek
        rw [hheads]
        rfl
      exact Std.TransCmp.isLE_trans (hother y hpeek') ((hvalid !isBlob).peek_isLE hpeek' x hx)

end Select

/-! ## What one pass does -/

section Pass

variable (vm : PayloadVm σ β) (keccak : Bytes → H256) (chainConfig : ChainConfig)

/-- What a pass that goes on did, on the state after the blob check: the
head `selectHead` took, and one of the four ends of the loop's body, with
the checks that led there. -/
inductive PassStep (st : FillState σ β) : FillState σ β → Prop
  | skipped {head : HeadTransaction} {isBlob : Bool} :
      selectHead st.plainTxs st.blobTxs = some (head, isBlob) →
      st.context.remainingGas < head.tx.inner.gasLimit →
      PassStep st ((st.setQueue isBlob (st.queue isBlob).pop).record head isBlob .skipped)
  | replayProtected {head : HeadTransaction} {isBlob : Bool} {context : PayloadBuildContext σ β} :
      selectHead st.plainTxs st.blobTxs = some (head, isBlob) →
      head.tx.inner.gasLimit ≤ st.context.remainingGas →
      (head.tx.inner.isProtected && !chainConfig.isEip155Activated st.context.blockNumber) = true →
      st.context.removeTransaction vm keccak head.tx.inner = .ok context →
      PassStep st ({ st.setQueue isBlob (st.queue isBlob).pop with context }.record head isBlob
        .replayProtected)
  | failed {head : HeadTransaction} {isBlob : Bool} {e : ChainError} :
      selectHead st.plainTxs st.blobTxs = some (head, isBlob) →
      head.tx.inner.gasLimit ≤ st.context.remainingGas →
      (head.tx.inner.isProtected && !chainConfig.isEip155Activated st.context.blockNumber) = false →
      applyTransaction vm keccak head st.context = .error e →
      PassStep st ((st.setQueue isBlob (st.queue isBlob).pop).record head isBlob .failed)
  | included {head : HeadTransaction} {isBlob : Bool} {receipt : Receipt}
      {context context' : PayloadBuildContext σ β} {txs : TransactionQueue} :
      selectHead st.plainTxs st.blobTxs = some (head, isBlob) →
      head.tx.inner.gasLimit ≤ st.context.remainingGas →
      (head.tx.inner.isProtected && !chainConfig.isEip155Activated st.context.blockNumber) = false →
      applyTransaction vm keccak head st.context = .ok (receipt, context) →
      (st.queue isBlob).shift = .ok txs →
      context.removeTransaction vm keccak head.tx.inner = .ok context' →
      PassStep st (({ st with context := context'.addTransaction head.tx.inner receipt }.setQueue
        isBlob txs).record head isBlob .included)

variable {vm keccak chainConfig}

theorem fillPass_cases {st st' : FillState σ β}
    (h : fillPass vm keccak chainConfig st = .ok (some st')) :
    txGasCost ≤ st.context.remainingGas ∧ PassStep vm keccak chainConfig st.checkBlobGas st' := by
  unfold fillPass at h
  split at h
  · cases h
  rename_i hgas
  refine ⟨UInt64.not_lt.mp hgas, ?_⟩
  dsimp only at h
  split at h
  · cases h
  rename_i head isBlob hsel
  split at h
  · -- no gas left for the head
    rename_i hlimit
    cases h
    exact .skipped hsel hlimit
  rename_i hlimit
  have hfits := UInt64.not_lt.mp hlimit
  split at h
  · -- replay-protected before EIP-155
    rename_i hprotected
    split at h
    · rename_i context hremove
      cases h
      rw [context_setQueue] at hremove
      exact .replayProtected hsel hfits hprotected hremove
    · cases h
    · cases h
  rename_i hprotected
  have hprotected' := Bool.of_not_eq_true hprotected
  split at h
  · rename_i e happly
    cases h
    exact .failed hsel hfits hprotected' happly
  · rename_i receipt context happly
    obtain ⟨txs, hshift, h⟩ := Outcome.bind_eq_ok.mp h
    obtain ⟨context', hremove, h⟩ := Outcome.bind_eq_ok.mp h
    cases h
    exact .included hsel hfits hprotected' happly hshift hremove

theorem PassStep.size_lt {st st' : FillState σ β} (h : PassStep vm keccak chainConfig st st') :
    st'.size < st.size := by
  -- the head taken is the first of its queue, which `pop` or `shift` removes
  have hpop : ∀ {head : HeadTransaction} {isBlob : Bool},
      selectHead st.plainTxs st.blobTxs = some (head, isBlob) →
      (st.setQueue isBlob (st.queue isBlob).pop).size < st.size := by
    intro head isBlob hsel
    have hlt := TransactionQueue.size_pop_lt
      (TransactionQueue.heads_eq_of_peek (selectHead_spec hsel).1)
    have := size_setQueue st isBlob (st.queue isBlob).pop
    omega
  cases h with
  | skipped hsel _ => exact hpop hsel
  | replayProtected hsel _ _ _ => exact hpop hsel
  | failed hsel _ _ _ => exact hpop hsel
  | @included head isBlob receipt _ context' txs hsel _ _ _ hshift _ =>
    have hlt := TransactionQueue.size_shift_lt
      (TransactionQueue.heads_eq_of_peek (selectHead_spec hsel).1) hshift
    have hsize := size_setQueue { st with context := context'.addTransaction head.tx.inner receipt }
      isBlob txs
    -- the context is not counted
    change _ + (st.queue isBlob).size = st.size + txs.size at hsize
    rw [size_record]
    omega

theorem fillLoop_ne_none (st : FillState σ β) :
    fillLoop vm keccak chainConfig (st.size + 1) st ≠ none := by
  refine Outcome.loop_ne_none FillState.size (fun s s' _ hpass => ?_) _ st .init (Nat.lt_succ_self _)
  obtain ⟨-, hstep⟩ := fillPass_cases hpass
  exact Nat.lt_of_lt_of_le hstep.size_lt size_checkBlobGas_le

end Pass

/-- `fill_transactions` returns, for every oracle: its loop is given a pass
per transaction and one more. -/
theorem fillTransactions_ne_none (vm : PayloadVm σ β) (keccak : Bytes → H256)
    (context : PayloadBuildContext σ β) : fillTransactions vm keccak context ≠ none := by
  unfold fillTransactions
  split
  · exact Option.some_ne_none _
  · exact Option.some_ne_none _
  · split
    · exact Option.some_ne_none _
    · exact Option.some_ne_none _
    · exact fillLoop_ne_none _

/-! ## What became of one sender's transactions -/

section Trail

variable {α : Type} {txs pending rest : List α} {trail : List (α × Bool)} {tx : α}

/-- What became of a list of transactions taken in order, as the events
`trail` (each transaction taken, and whether it was included) and the part
`pending` still waiting say: the first `k` were included, in order, and
then either the rest still waits (or was dropped with its whole queue), or
the next one was not included and nothing waits. -/
def SenderTrail (txs pending : List α) (trail : List (α × Bool)) : Prop :=
  ∃ k, (trail = (txs.take k).map (·, true) ∧ (pending = txs.drop k ∨ pending = [])) ∨
    ∃ tx, txs[k]? = some tx ∧ trail = (txs.take k).map (·, true) ++ [(tx, false)] ∧ pending = []

namespace SenderTrail

theorem start (txs : List α) : SenderTrail txs txs [] := ⟨0, .inl ⟨rfl, .inl rfl⟩⟩

theorem drop (h : SenderTrail txs pending trail) : SenderTrail txs [] trail := by
  obtain ⟨k, ⟨htrail, -⟩ | ⟨tx, htx, htrail, -⟩⟩ := h
  · exact ⟨k, .inl ⟨htrail, .inr rfl⟩⟩
  · exact ⟨k, .inr ⟨tx, htx, htrail, rfl⟩⟩

theorem of_cons (h : SenderTrail txs (tx :: rest) trail) :
    ∃ k, trail = (txs.take k).map (·, true) ∧ txs.drop k = tx :: rest := by
  obtain ⟨k, ⟨htrail, hpending | hpending⟩ | ⟨_, _, _, hpending⟩⟩ := h
  · exact ⟨k, htrail, hpending.symm⟩
  · cases hpending
  · cases hpending

theorem getElem?_of_drop_eq_cons {k : Nat} (h : txs.drop k = tx :: rest) : txs[k]? = some tx := by
  rw [← Nat.add_zero k, ← List.getElem?_drop, h]
  rfl

theorem accept (h : SenderTrail txs (tx :: rest) trail) :
    SenderTrail txs rest (trail ++ [(tx, true)]) := by
  obtain ⟨k, htrail, hdrop⟩ := h.of_cons
  refine ⟨k + 1, .inl ⟨?_, .inl ?_⟩⟩
  · rw [htrail, List.take_add_one, getElem?_of_drop_eq_cons hdrop, Option.toList_some,
      List.map_append]
    rfl
  · rw [← List.drop_drop, hdrop]
    rfl

theorem reject (h : SenderTrail txs (tx :: rest) trail) :
    SenderTrail txs [] (trail ++ [(tx, false)]) := by
  obtain ⟨k, htrail, hdrop⟩ := h.of_cons
  exact ⟨k, .inr ⟨tx, getElem?_of_drop_eq_cons hdrop, by rw [htrail], rfl⟩⟩

end SenderTrail

end Trail

/-! ## The log -/

/-- A sender's events in one queue: each transaction a pass took of it,
with whether the pass included it. -/
def senderEvents (log : List FillEvent) (isBlob : Bool) (sender : Address) :
    List (MempoolTransaction × Bool) :=
  (log.filter fun ev => ev.isBlob == isBlob && ev.head.sender == sender).map
    fun ev => (ev.head.tx, ev.verdict == .included)

/-- The transactions the passes included, in order. -/
def includedTxs (log : List FillEvent) : List Transaction :=
  (log.filter fun ev => ev.verdict == .included).map fun ev => ev.head.tx.inner

theorem senderEvents_append (log : List FillEvent) (ev : FillEvent) (isBlob : Bool) (sender : Address) :
    senderEvents (log ++ [ev]) isBlob sender =
      senderEvents log isBlob sender ++
        if ev.isBlob = isBlob ∧ ev.head.sender = sender then [(ev.head.tx, ev.verdict == .included)]
        else [] := by
  unfold senderEvents
  rw [List.filter_append, List.map_append]
  congr 1
  by_cases hev : ev.isBlob = isBlob ∧ ev.head.sender = sender
  · rw [if_pos hev, List.filter_cons_of_pos (by simp [hev.1, hev.2])]
    rfl
  · rw [if_neg hev, List.filter_cons_of_neg (by simpa using hev)]
    rfl

theorem includedTxs_append (log : List FillEvent) (ev : FillEvent) :
    includedTxs (log ++ [ev]) =
      includedTxs log ++ if ev.verdict = .included then [ev.head.tx.inner] else [] := by
  unfold includedTxs
  rw [List.filter_append, List.map_append]
  congr 1
  by_cases hev : ev.verdict = .included
  · rw [if_pos hev, List.filter_cons_of_pos (by simp [hev])]
    rfl
  · rw [if_neg hev, List.filter_cons_of_neg (by simpa using hev)]
    rfl

/-! ## What the loop keeps of its queues -/

/-- What the loop keeps of its queues, against the state `init` it started
from: each queue valid on the base fee `baseFee`, and every sender's events
and pending transactions in each queue as `SenderTrail` says of the list
the sender started with there. -/
structure QueueInv (baseFee : Option UInt64) (init st : FillState σ β) : Prop where
  valid : ∀ b, (st.queue b).Valid
  baseFee : ∀ b, (st.queue b).baseFee = baseFee
  trail : ∀ b s, SenderTrail ((init.queue b).pending s) ((st.queue b).pending s) (senderEvents st.log b s)

namespace QueueInv

variable {baseFee : Option UInt64} {init st : FillState σ β} {head : HeadTransaction} {b : Bool}

theorem start (hvalid : ∀ b, (init.queue b).Valid) (hbaseFee : ∀ b, (init.queue b).baseFee = baseFee)
    (hlog : init.log = []) : QueueInv baseFee init init := by
  refine ⟨hvalid, hbaseFee, fun b s => ?_⟩
  rw [hlog]
  exact SenderTrail.start _

theorem congr {st' : FillState σ β} (h : QueueInv baseFee init st) (hplain : st'.plainTxs = st.plainTxs)
    (hblob : st'.blobTxs = st.blobTxs) (hlog : st'.log = st.log) : QueueInv baseFee init st' := by
  obtain ⟨context', plainTxs', blobTxs', log'⟩ := st'
  obtain ⟨context, plainTxs, blobTxs, log⟩ := st
  cases hplain
  cases hblob
  cases hlog
  exact ⟨h.valid, h.baseFee, h.trail⟩

theorem checkBlobGas (h : QueueInv baseFee init st) : QueueInv baseFee init st.checkBlobGas := by
  refine ⟨fun b => ?_, fun b => ?_, fun b s => ?_⟩
  · rcases queue_checkBlobGas st b with hq | hq <;> rw [hq]
    · exact h.valid b
    · exact TransactionQueue.valid_clear
  · rcases queue_checkBlobGas st b with hq | hq <;> rw [hq]
    · exact h.baseFee b
    · rw [TransactionQueue.baseFee_clear]
      exact h.baseFee b
  · rw [log_checkBlobGas]
    rcases queue_checkBlobGas st b with hq | hq <;> rw [hq]
    · exact h.trail b s
    · -- a cleared queue: nothing of the sender waits
      rw [TransactionQueue.pending_clear]
      exact (h.trail b s).drop

theorem pop_record {v : FillVerdict} (h : QueueInv baseFee init st)
    (hpeek : (st.queue b).peek = some head) (hv : v ≠ .included) :
    QueueInv baseFee init ((st.setQueue b (st.queue b).pop).record head b v) := by
  have hheads := TransactionQueue.heads_eq_of_peek hpeek
  refine ⟨fun b' => ?_, fun b' => ?_, fun b' s => ?_⟩
  · rw [queue_record, queue_setQueue]
    split
    · exact (h.valid b).pop
    · exact h.valid b'
  · rw [queue_record, queue_setQueue]
    split
    · rw [TransactionQueue.baseFee_pop]
      exact h.baseFee b
    · exact h.baseFee b'
  · rw [queue_record, queue_setQueue, log_record, log_setQueue, senderEvents_append]
    by_cases hb : b' = b
    · subst hb
      rw [if_pos rfl, TransactionQueue.pending_pop (h.valid b') hheads]
      by_cases hs : s = head.sender
      · -- the head's sender: its head rejected, nothing left
        subst hs
        have htrail := h.trail b' head.sender
        rw [TransactionQueue.pending_first hheads] at htrail
        rw [if_pos rfl, if_pos ⟨rfl, rfl⟩, beq_false_of_ne hv]
        exact htrail.reject
      · rw [if_neg hs, if_neg (fun hev => hs hev.2.symm), List.append_nil]
        exact h.trail b' s
    · rw [if_neg hb, if_neg (fun hev => hb hev.1.symm), List.append_nil]
      exact h.trail b' s

theorem shift_record {q : TransactionQueue} (h : QueueInv baseFee init st)
    (hpeek : (st.queue b).peek = some head) (hshift : (st.queue b).shift = .ok q) :
    QueueInv baseFee init ((st.setQueue b q).record head b .included) := by
  have hheads := TransactionQueue.heads_eq_of_peek hpeek
  refine ⟨fun b' => ?_, fun b' => ?_, fun b' s => ?_⟩
  · rw [queue_record, queue_setQueue]
    split
    · exact (h.valid b).shift hshift
    · exact h.valid b'
  · rw [queue_record, queue_setQueue]
    split
    · rw [TransactionQueue.baseFee_shift hshift]
      exact h.baseFee b
    · exact h.baseFee b'
  · rw [queue_record, queue_setQueue, log_record, log_setQueue, senderEvents_append]
    by_cases hb : b' = b
    · subst hb
      rw [if_pos rfl, TransactionQueue.pending_shift (h.valid b') hheads hshift]
      by_cases hs : s = head.sender
      · -- the head's sender: its head included, the rest waits
        subst hs
        have htrail := h.trail b' head.sender
        rw [TransactionQueue.pending_first hheads] at htrail ⊢
        rw [if_pos rfl, if_pos ⟨rfl, rfl⟩, List.tail_cons]
        exact htrail.accept
      · rw [if_neg hs, if_neg (fun hev => hs hev.2.symm), List.append_nil]
        exact h.trail b' s
    · rw [if_neg hb, if_neg (fun hev => hb hev.1.symm), List.append_nil]
      exact h.trail b' s

end QueueInv

/-! ## What the loop keeps of the context -/

theorem toNat_blobGasUsed_add {prev : UInt64} {n : Nat}
    (h : prev.toNat + n * gasPerBlob.toNat ≤ maxBlobGasPerBlock.toNat) :
    (prev + n.toUInt64 * gasPerBlob).toNat = prev.toNat + n * gasPerBlob.toNat := by
  have hgas : gasPerBlob.toNat = 131072 := rfl
  have hmax : maxBlobGasPerBlock.toNat = 786432 := rfl
  rw [hgas, hmax] at h
  rw [UInt64.toNat_add, UInt64.toNat_mul, UInt64.toNat_ofNat', hgas,
    Nat.mod_eq_of_lt (show n < 2 ^ 64 by omega), Nat.mod_eq_of_lt (show n * 131072 < 2 ^ 64 by omega),
    Nat.mod_eq_of_lt (show prev.toNat + n * 131072 < 2 ^ 64 by omega)]

/-- What the loop keeps of the context, against the context `context₀` it
started from: the gas limit, the gas left within it, and the blob gas the
header records, which is that of the blobs taken and within the block's. -/
structure ContextInv (context₀ ctx : PayloadBuildContext σ β) : Prop where
  gasLimit : ctx.payload.header.gasLimit = context₀.payload.header.gasLimit
  remainingGas : ctx.remainingGas ≤ ctx.payload.header.gasLimit
  blobGas : ctx.blobsBundle.blobs.length * gasPerBlob.toNat ≤ maxBlobGasPerBlock.toNat
  blobGasUsed :
    (ctx.payload.header.blobGasUsed.getD 0).toNat = ctx.blobsBundle.blobs.length * gasPerBlob.toNat

section Context

variable {vm : PayloadVm σ β} {keccak : Bytes → H256} {head : HeadTransaction} {receipt : Receipt}
  {context₀ ctx ctx' : PayloadBuildContext σ β}

theorem removeTransaction_eq_ok {tx : Transaction} (h : ctx.removeTransaction vm keccak tx = .ok ctx') :
    ∃ store, ctx' = { ctx with store := some store } := by
  unfold PayloadBuildContext.removeTransaction at h
  split at h
  · cases h
  · split at h
    · rename_i store _
      cases h
      exact ⟨store, rfl⟩
    · cases h

theorem applyPlainTransaction_eq_ok (h : applyPlainTransaction vm keccak head ctx = .ok (receipt, ctx')) :
    ∃ result : ExecutionResult, ∃ evmState : σ,
      ctx' = { ctx with evmState, remainingGas := saturatingSub ctx.remainingGas result.gasUsed,
                        blockValue := ctx.blockValue + u256OfU64 result.gasUsed * u256OfU64 head.tip } := by
  unfold applyPlainTransaction at h
  obtain ⟨chainConfig, -, h⟩ := Except.bind_eq_ok.mp h
  obtain ⟨⟨result, evmState⟩, -, h⟩ := Except.bind_eq_ok.mp h
  simp only [Except.pure_eq_ok, Except.ok.injEq, Prod.mk.injEq] at h
  obtain ⟨-, rfl⟩ := h
  exact ⟨result, evmState, rfl⟩

namespace ContextInv

theorem start (hfresh : context₀.Fresh) : ContextInv context₀ context₀ := by
  refine ⟨rfl, ?_, ?_, ?_⟩
  · rw [hfresh.remainingGas]
    exact UInt64.le_refl _
  · rw [hfresh.blobs, List.length_nil, Nat.zero_mul]
    exact Nat.zero_le _
  · rw [hfresh.blobGasUsed, hfresh.blobs, List.length_nil, Nat.zero_mul]
    rfl

theorem removeTransaction {tx : Transaction} (h : ContextInv context₀ ctx)
    (hremove : ctx.removeTransaction vm keccak tx = .ok ctx') :
    ContextInv context₀ ctx' ∧ ctx'.payload = ctx.payload := by
  obtain ⟨store, rfl⟩ := removeTransaction_eq_ok hremove
  exact ⟨⟨h.gasLimit, h.remainingGas, h.blobGas, h.blobGasUsed⟩, rfl⟩

theorem applyPlainTransaction (h : ContextInv context₀ ctx)
    (happly : applyPlainTransaction vm keccak head ctx = .ok (receipt, ctx')) :
    ContextInv context₀ ctx' ∧ ctx'.payload = ctx.payload ∧ ctx'.blobsBundle = ctx.blobsBundle := by
  obtain ⟨result, evmState, rfl⟩ := applyPlainTransaction_eq_ok happly
  exact ⟨⟨h.gasLimit, UInt64.le_trans (saturatingSub_le _ _) h.remainingGas, h.blobGas, h.blobGasUsed⟩,
    rfl, rfl⟩

theorem applyTransaction (h : ContextInv context₀ ctx)
    (happly : applyTransaction vm keccak head ctx = .ok (receipt, ctx')) :
    ContextInv context₀ ctx' ∧ ctx'.payload.body = ctx.payload.body := by
  unfold Ethrex.Blockchain.applyTransaction at happly
  split at happly
  · -- a blob transaction: its bundle from the pool, within the block's blob gas
    unfold applyBlobTransaction at happly
    split at happly
    · cases happly
    split at happly
    · cases happly
    · cases happly
    rename_i bundle _
    split at happly
    · cases happly
    rename_i hfits
    have hsum : (ctx.blobsBundle.blobs.length + bundle.blobs.length) * gasPerBlob.toNat ≤
        maxBlobGasPerBlock.toNat := Nat.le_of_not_gt hfits
    obtain ⟨⟨receipt', ctx1⟩, hplain, happly⟩ := Except.bind_eq_ok.mp happly
    obtain ⟨h1, hpayload, hbundle⟩ := h.applyPlainTransaction hplain
    simp only [Except.pure_eq_ok, Except.ok.injEq, Prod.mk.injEq] at happly
    obtain ⟨-, rfl⟩ := happly
    refine ⟨⟨h1.gasLimit, h1.remainingGas, ?_, ?_⟩, ?_⟩
    · show (ctx1.blobsBundle.blobs ++ bundle.blobs).length * _ ≤ _
      rw [List.length_append, hbundle]
      exact hsum
    · show UInt64.toNat (Option.getD (some _) 0) = (ctx1.blobsBundle.blobs ++ bundle.blobs).length * _
      have hprev : (ctx1.payload.header.blobGasUsed.getD 0).toNat =
          ctx.blobsBundle.blobs.length * gasPerBlob.toNat := by
        rw [hpayload]
        exact h.blobGasUsed
      rw [Option.getD_some, toNat_blobGasUsed_add (by rw [hprev, ← Nat.add_mul]; exact hsum), hprev,
        List.length_append, hbundle, Nat.add_mul]
    · show ctx1.payload.body = ctx.payload.body
      rw [hpayload]
  · obtain ⟨h1, hpayload, -⟩ := h.applyPlainTransaction happly
    exact ⟨h1, congrArg Block.body hpayload⟩

end ContextInv

end Context

/-! ## The loop's invariant -/

/-- What the loop keeps, against the context `context₀` and the state
`init` it started from: its queues, its context, and the block's
transactions, which are those it had and then those the passes included. -/
structure FillInvariant (context₀ : PayloadBuildContext σ β) (init st : FillState σ β) : Prop where
  queues : QueueInv context₀.baseFeePerGas init st
  context : ContextInv context₀ st.context
  transactions :
    st.context.payload.body.transactions = context₀.payload.body.transactions ++ includedTxs st.log

/-- What a pass did with the head it took, from the state `st` it took it
in: the head was its queue's first, went no later than every head of both
queues (a higher tip, or the same tip and an earlier arrival), its tip was
its effective tip, and if it was included, its gas limit was within the gas
left. -/
structure Chosen (baseFee : Option UInt64) (st : FillState σ β) (ev : FillEvent) : Prop where
  peek : (st.queue ev.isBlob).peek = some ev.head
  first : ∀ h ∈ st.plainTxs.heads ++ st.blobTxs.heads,
    h.tip < ev.head.tip ∨ (h.tip = ev.head.tip ∧ ev.head.tx.time ≤ h.tx.time)
  tip : ev.head.tx.inner.effectiveGasTip baseFee = some ev.head.tip
  gas : ev.verdict = .included → ev.head.tx.inner.gasLimit ≤ st.context.remainingGas

section Run

variable {vm : PayloadVm σ β} {keccak : Bytes → H256} {chainConfig : ChainConfig}
  {context₀ : PayloadBuildContext σ β} {init st st' : FillState σ β}

theorem chosen_of_selectHead {baseFee : Option UInt64} {head : HeadTransaction} {isBlob : Bool}
    {v : FillVerdict} (h : QueueInv baseFee init st)
    (hsel : selectHead st.plainTxs st.blobTxs = some (head, isBlob))
    (hgas : v = .included → head.tx.inner.gasLimit ≤ st.context.remainingGas) :
    Chosen baseFee st ⟨head, isBlob, v⟩ := by
  obtain ⟨hpeek, -⟩ := selectHead_spec hsel
  have hmem : head ∈ (st.queue isBlob).heads := by
    rw [TransactionQueue.heads_eq_of_peek hpeek]
    exact List.mem_cons_self
  refine ⟨hpeek, fun x hx => HeadTransaction.isLE_cmp_iff.mp (selectHead_first h.valid hsel x hx), ?_, hgas⟩
  rw [← h.baseFee isBlob]
  exact (h.valid isBlob).tips head hmem

theorem PassStep.chosen {baseFee : Option UInt64} (h : QueueInv baseFee init st)
    (hstep : PassStep vm keccak chainConfig st st') :
    ∃ ev, st'.log = st.log ++ [ev] ∧ Chosen baseFee st ev := by
  cases hstep with
  | skipped hsel _ =>
    exact ⟨⟨_, _, .skipped⟩, by rw [log_record, log_setQueue],
      chosen_of_selectHead h hsel fun hv => nomatch hv⟩
  | replayProtected hsel _ _ _ =>
    refine ⟨⟨_, _, .replayProtected⟩, ?_, chosen_of_selectHead h hsel fun hv => nomatch hv⟩
    show (st.setQueue _ _).log ++ _ = _
    rw [log_setQueue]
  | failed hsel _ _ _ =>
    exact ⟨⟨_, _, .failed⟩, by rw [log_record, log_setQueue],
      chosen_of_selectHead h hsel fun hv => nomatch hv⟩
  | included hsel hfits _ _ _ _ =>
    refine ⟨⟨_, _, .included⟩, ?_, chosen_of_selectHead h hsel fun _ => hfits⟩
    rw [log_record, log_setQueue]

theorem FillInvariant.checkBlobGas (h : FillInvariant context₀ init st) :
    FillInvariant context₀ init st.checkBlobGas := by
  refine ⟨h.queues.checkBlobGas, ?_, ?_⟩
  · rw [context_checkBlobGas]
    exact h.context
  · rw [context_checkBlobGas, log_checkBlobGas]
    exact h.transactions

theorem PassStep.invariant (h : FillInvariant context₀ init st)
    (hstep : PassStep vm keccak chainConfig st st') : FillInvariant context₀ init st' := by
  cases hstep with
  | skipped hsel _ =>
    refine ⟨h.queues.pop_record (selectHead_spec hsel).1 (by decide), ?_, ?_⟩
    · rw [context_record, context_setQueue]
      exact h.context
    · rw [context_record, context_setQueue, log_record, log_setQueue, includedTxs_append,
        if_neg (by simp), List.append_nil]
      exact h.transactions
  | @replayProtected head isBlob context hsel _ _ hremove =>
    -- the sender goes, and the head leaves the pool: the store changes, not the payload
    obtain ⟨hctx, hpayload⟩ := h.context.removeTransaction hremove
    refine ⟨(h.queues.pop_record (selectHead_spec hsel).1 (by decide)).congr rfl rfl rfl, hctx, ?_⟩
    show context.payload.body.transactions = _ ++ includedTxs ((st.setQueue isBlob _).log ++ _)
    rw [hpayload, log_setQueue, includedTxs_append, if_neg (by simp), List.append_nil]
    exact h.transactions
  | failed hsel _ _ _ =>
    refine ⟨h.queues.pop_record (selectHead_spec hsel).1 (by decide), ?_, ?_⟩
    · rw [context_record, context_setQueue]
      exact h.context
    · rw [context_record, context_setQueue, log_record, log_setQueue, includedTxs_append,
        if_neg (by simp), List.append_nil]
      exact h.transactions
  | @included head isBlob receipt context context' txs hsel _ _ happly hshift hremove =>
    -- executed, the sender moved on, the head out of the pool and into the block
    obtain ⟨hctx, hbody⟩ := h.context.applyTransaction happly
    obtain ⟨hctx', hpayload⟩ := hctx.removeTransaction hremove
    rw [setQueue_context]
    refine ⟨(h.queues.shift_record (selectHead_spec hsel).1 hshift).congr rfl rfl rfl,
      ⟨hctx'.gasLimit, hctx'.remainingGas, hctx'.blobGas, hctx'.blobGasUsed⟩, ?_⟩
    show context'.payload.body.transactions ++ [head.tx.inner] =
      _ ++ includedTxs ((st.setQueue isBlob txs).log ++ _)
    rw [log_setQueue, includedTxs_append, if_pos rfl, hpayload, hbody, h.transactions, List.append_assoc]

theorem fillPass_invariant (h : FillInvariant context₀ init st)
    (hpass : fillPass vm keccak chainConfig st = .ok (some st')) : FillInvariant context₀ init st' :=
  (fillPass_cases hpass).2.invariant h.checkBlobGas

end Run

/-! ## `fill_transactions` -/

section Fill

variable {vm : PayloadVm σ β} {keccak : Bytes → H256} {context : PayloadBuildContext σ β}

end Fill

/-- Payload transaction selection: `fill_transactions` returns; and the loop
it runs on the queues of any transactions grouped by sender, from a fresh
context, keeps in every state it reaches: each sender's events in each
queue are its list there, included as a prefix in order, then at most one
more not included, with nothing of the sender pending after that; the
block's transactions are those included, in order; the gas left is within
the unchanged gas limit; the blob gas the header records is that of the
blobs taken, within `MAX_BLOB_GAS_PER_BLOCK`; and the next pass takes a
head that goes no later than every head of both queues, its tip the
effective tip, and includes it only within the gas left. -/
theorem fill_transactions_selects (vm : PayloadVm σ β) (keccak : Bytes → H256)
    (chainConfig : ChainConfig) (context : PayloadBuildContext σ β) (hfresh : context.Fresh)
    (plainTxs blobTxs : EntryMap Address (List MempoolTransaction)) (plainQ blobQ : TransactionQueue)
    (hplain : TransactionQueue.new plainTxs context.baseFeePerGas = .ok plainQ)
    (hblob : TransactionQueue.new blobTxs context.baseFeePerGas = .ok blobQ) :
    fillTransactions vm keccak context ≠ none ∧
    ∀ st, Outcome.Reachable (fillPass vm keccak chainConfig) (.start context plainQ blobQ) st →
      (∀ s, SenderTrail ((plainTxs.get? s).getD []) (st.plainTxs.pending s) (senderEvents st.log false s)) ∧
      (∀ s, SenderTrail ((blobTxs.get? s).getD []) (st.blobTxs.pending s) (senderEvents st.log true s)) ∧
      st.context.payload.body.transactions = context.payload.body.transactions ++ includedTxs st.log ∧
      st.context.remainingGas ≤ st.context.payload.header.gasLimit ∧
      st.context.payload.header.gasLimit = context.payload.header.gasLimit ∧
      (st.context.payload.header.blobGasUsed.getD 0).toNat =
        st.context.blobsBundle.blobs.length * gasPerBlob.toNat ∧
      st.context.blobsBundle.blobs.length * gasPerBlob.toNat ≤ maxBlobGasPerBlock.toNat ∧
      ∀ st', fillPass vm keccak chainConfig st = .ok (some st') →
        ∃ ev, st'.log = st.log ++ [ev] ∧ Chosen context.baseFeePerGas st.checkBlobGas ev := by
  obtain ⟨hplainValid, hplainFee, hplainPending⟩ := TransactionQueue.new_spec hplain
  obtain ⟨hblobValid, hblobFee, hblobPending⟩ := TransactionQueue.new_spec hblob
  have hstart : FillInvariant context (.start context plainQ blobQ) (.start context plainQ blobQ) := by
    refine ⟨QueueInv.start (fun b => ?_) (fun b => ?_) rfl, ContextInv.start hfresh, ?_⟩
    · cases b
      · exact hplainValid
      · exact hblobValid
    · cases b
      · exact hplainFee
      · exact hblobFee
    · exact (List.append_nil _).symm
  refine ⟨fillTransactions_ne_none vm keccak context, fun st hreach => ?_⟩
  -- the invariant, from the start through every pass
  have hinv : FillInvariant context (.start context plainQ blobQ) st :=
    hreach.induction_on _ hstart fun _ _ _ hs hpass => fillPass_invariant hs hpass
  refine ⟨fun s => ?_, fun s => ?_, hinv.transactions, hinv.context.remainingGas, hinv.context.gasLimit,
    hinv.context.blobGasUsed, hinv.context.blobGas, fun st' hpass => ?_⟩
  · rw [← hplainPending s]
    exact hinv.queues.trail false s
  · rw [← hblobPending s]
    exact hinv.queues.trail true s
  · obtain ⟨-, hstep⟩ := fillPass_cases hpass
    obtain ⟨ev, hlog, hchosen⟩ := hstep.chosen hinv.queues.checkBlobGas
    exact ⟨ev, by rw [hlog, log_checkBlobGas], hchosen⟩

/-! ## One sender in both queues -/

/-- The sender. -/
def senderX : Address := .replicate 20 1

/-- Its nonce-0 transaction: a plain one, with a tip of 1. -/
def plainNonceZero : EIP1559Transaction :=
  { zeroEip1559 with nonce := 0, maxPriorityFeePerGas := 1, maxFeePerGas := 1, gasLimit := 21000 }

/-- Its nonce-1 transaction: a blob one, with a tip of 10. -/
def blobNonceOne : EIP4844Transaction :=
  { chainId := 0, nonce := 1, maxPriorityFeePerGas := 10, maxFeePerGas := 10, gas := 21000,
    «to» := .replicate 20 0, value := 0, data := [], accessList := [], maxFeePerBlobGas := 1,
    blobVersionedHashes := [.replicate 32 0], signatureYParity := false, signatureR := 0,
    signatureS := 0 }

def plainMempoolTx : MempoolTransaction :=
  { timestamp := 0, sender := senderX, inner := .eip1559Transaction plainNonceZero }

def blobMempoolTx : MempoolTransaction :=
  { timestamp := 1, sender := senderX, inner := .eip4844Transaction blobNonceOne }

/-- What the plain filter returns: the sender with its plain transaction. -/
def plainGroup : EntryMap Address (List MempoolTransaction) :=
  ⟨[(senderX, [plainMempoolTx])], List.nodup_singleton _⟩

/-- What the blob filter returns: the sender with its blob transaction. -/
def blobGroup : EntryMap Address (List MempoolTransaction) :=
  ⟨[(senderX, [blobMempoolTx])], List.nodup_singleton _⟩

def plainQueue : TransactionQueue :=
  { heads := [⟨plainMempoolTx, senderX, 1⟩], txs := plainGroup.mapValues fun _ txs => txs.tail,
    baseFee := none }

def blobQueue : TransactionQueue :=
  { heads := [⟨blobMempoolTx, senderX, 10⟩], txs := blobGroup.mapValues fun _ txs => txs.tail,
    baseFee := none }

/-- A chain with EIP-155 from genesis. -/
def eip155Config : ChainConfig := { shanghaiTime := none, cancunTime := none, eip155Block := some 0 }

/-- An oracle under which blob transactions execute and plain ones fail;
the pool has the two groups, and a one-blob bundle for every hash. -/
def blobFirstVm : PayloadVm Unit Unit where
  chainConfig _ := .ok eip155Config
  executeTx tx _ evmState _ :=
    match tx with
    | .eip4844Transaction _ => .ok (.success 21000 [], evmState)
    | _ => .error (.custom "execution failed")
  filterTransactions _ filter := .ok (if filter.onlyBlobTxs then blobGroup else plainGroup)
  getBlobsBundleFromPool _ _ := .ok (some ⟨[[]], [[]], [[]]⟩)
  removeTransaction store _ := .ok store

/-- An empty payload with thirty million gas, on a store, without a base fee. -/
def emptyPayloadContext : PayloadBuildContext Unit Unit :=
  { payload := { header := { (default : BlockHeader) with gasLimit := 30000000 }, body := default },
    evmState := (), remainingGas := 30000000, receipts := [], blockValue := 0, baseFeePerBlobGas := 1,
    blobsBundle := .empty, store := some () }

theorem fill_transactions_selects_one_sender_in_each_queue :
    fillTransactions blobFirstVm (fun _ => .replicate 32 0) emptyPayloadContext ≠ none ∧
    ∀ st, Outcome.Reachable (fillPass blobFirstVm (fun _ => .replicate 32 0) eip155Config)
        (.start emptyPayloadContext plainQueue blobQueue) st →
      SenderTrail [plainMempoolTx] (st.plainTxs.pending senderX) (senderEvents st.log false senderX) ∧
      SenderTrail [blobMempoolTx] (st.blobTxs.pending senderX) (senderEvents st.log true senderX) := by
  obtain ⟨hend, hrun⟩ := fill_transactions_selects blobFirstVm (fun _ => .replicate 32 0) eip155Config
    emptyPayloadContext ⟨rfl, rfl, rfl⟩ plainGroup blobGroup plainQueue blobQueue rfl rfl
  refine ⟨hend, fun st hst => ?_⟩
  obtain ⟨hplain, hblob, -⟩ := hrun st hst
  exact ⟨hplain senderX, hblob senderX⟩

/-- Across the queues a sender's nonce order is not kept: the blob
transaction, with nonce 1 and the higher tip, is taken first and included;
the plain one, nonce 0, is then taken and fails; the block holds the
sender's nonce-1 transaction and not its nonce-0 one. -/
theorem fill_transactions_across_queues :
    plainNonceZero.nonce < blobNonceOne.nonce ∧
    ∃ st, fillTransactions blobFirstVm (fun _ => .replicate 32 0) emptyPayloadContext = some (.ok st) ∧
      st.context.payload.body.transactions = [blobMempoolTx.inner] ∧
      ¬ st.context.payload.body.transactions <+: [plainMempoolTx.inner, blobMempoolTx.inner] := by
  obtain ⟨st, hrun, htxs⟩ : ∃ st, fillTransactions blobFirstVm (fun _ => .replicate 32 0)
      emptyPayloadContext = some (.ok st) ∧
      st.context.payload.body.transactions = [blobMempoolTx.inner] := ⟨_, rfl, rfl⟩
  refine ⟨by decide, st, hrun, htxs, ?_⟩
  rw [htxs]
  decide

end Ethrex.Blockchain
