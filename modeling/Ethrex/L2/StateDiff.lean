/-
# `Ethrex.L2.StateDiff` — the state diff a committer posts

`StateDiff::encode` (`l2/proposer/state_diff.rs`) packs a block's state
changes into the bytes the committer puts in a blob on L1, for anyone to
rebuild the L2 state from.  The layout is: a version byte, the number of
modified accounts in two bytes, and then the accounts.  Each account is a
type byte whose bits say which fields follow, the address, and those
fields.  After the accounts come the withdrawal logs, 84 bytes each, and
then the deposit logs, 52 bytes each.  There is no decoder.

Two things are not written, so a reader cannot recover them.  The first is
where the withdrawals end and the deposits begin: the encoding reads the
logs only through their concatenation (`encode_of_logBytes_eq`), so 13
withdrawals and 21 deposits fill the same 1092 bytes.  The second is the
length of a bytecode: its two-byte prefix is the length of the storage
list (`AccountStateDiff.encode_bytecodeOnly`), so bytes after it can be
read as part of it.

The `HashMap` of modified accounts is the list of its entries in iteration
order.
-/
import Ethrex.Rlp.Encode

namespace Ethrex.L2

open Ethrex.Rlp (Bytes Address H256 U256)

/-- `AccountStateDiff`. -/
structure AccountStateDiff where
  newBalance : Option U256
  nonceDiff : UInt16
  storage : List (H256 × U256)
  bytecode : Option Bytes
  bytecodeHash : Option H256
  deriving DecidableEq

/-- `AccountStateDiffType`: the bit of each field in the type byte. -/
inductive AccountStateDiffType where
  | newBalance
  | nonceDiff
  | storage
  | bytecode
  | bytecodeHash

/-- `impl From<AccountStateDiffType> for u8`. -/
def AccountStateDiffType.toU8 : AccountStateDiffType → UInt8
  | .newBalance => 1
  | .nonceDiff => 2
  | .storage => 4
  | .bytecode => 8
  | .bytecodeHash => 16

/-- `WithdrawalLog`. -/
structure WithdrawalLog where
  address : Address
  amount : U256
  txHash : H256
  deriving DecidableEq

/-- `DepositLog`. -/
structure DepositLog where
  address : Address
  amount : U256
  nonce : UInt64
  deriving DecidableEq

/-- `StateDiff`. -/
structure StateDiff where
  version : UInt8
  modifiedAccounts : List (Address × AccountStateDiff)
  withdrawalLogs : List WithdrawalLog
  depositLogs : List DepositLog
  deriving DecidableEq

/-- `StateDiffError`: the variants `encode` raises. -/
inductive StateDiffError where
  | unsupportedVersion (version : UInt8)
  | bytecodeAndBytecodeHashSet
  | emptyAccountDiff
  | lengthTooBig
  deriving DecidableEq

/-- `usize::try_into::<u16>`. -/
def tryIntoU16 (n : Nat) : Except StateDiffError UInt16 :=
  if n < 2 ^ 16 then .ok n.toUInt16 else .error .lengthTooBig

/-- `u16::to_be_bytes`. -/
def u16ToBeBytes (x : UInt16) : Bytes := BigEndian.toBytes 2 x.toNat

/-- `U256::to_big_endian`. -/
def u256ToBigEndian (x : U256) : Bytes := BigEndian.toBytes 32 x.toNat

/-- `AccountStateDiff::encode`: the type byte and the fields it announces.
The bytecode's length prefix is read off the storage list, as in the
source. -/
def AccountStateDiff.encode (self : AccountStateDiff) : Except StateDiffError (UInt8 × Bytes) := do
  if self.bytecode.isSome && self.bytecodeHash.isSome then
    throw .bytecodeAndBytecodeHashSet
  let mut type : UInt8 := 0
  let mut encoded : Bytes := []
  if let some newBalance := self.newBalance then
    type := type + AccountStateDiffType.newBalance.toU8
    encoded := encoded ++ u256ToBigEndian newBalance
  if self.nonceDiff ≠ 0 then
    type := type + AccountStateDiffType.nonceDiff.toU8
    encoded := encoded ++ u16ToBeBytes self.nonceDiff
  if !self.storage.isEmpty then
    let storageLen ← tryIntoU16 self.storage.length
    type := type + AccountStateDiffType.storage.toU8
    encoded := encoded ++ u16ToBeBytes storageLen
    for (key, value) in self.storage do
      encoded := encoded ++ key.toList ++ u256ToBigEndian value
  if let some bytecode := self.bytecode then
    let bytecodeLen ← tryIntoU16 self.storage.length
    type := type + AccountStateDiffType.bytecode.toU8
    encoded := encoded ++ u16ToBeBytes bytecodeLen ++ bytecode
  if let some bytecodeHash := self.bytecodeHash then
    type := type + AccountStateDiffType.bytecodeHash.toU8
    encoded := encoded ++ bytecodeHash.toList
  if type = 0 then
    throw .emptyAccountDiff
  pure (type, encoded)

/-- One withdrawal log: address, amount, transaction hash. -/
def WithdrawalLog.encode (withdrawal : WithdrawalLog) : Bytes :=
  withdrawal.address.toList ++ u256ToBigEndian withdrawal.amount ++ withdrawal.txHash.toList

/-- One deposit log: address and amount; the nonce is not written. -/
def DepositLog.encode (deposit : DepositLog) : Bytes :=
  deposit.address.toList ++ u256ToBigEndian deposit.amount

/-- One modified account: type byte, address, fields. -/
def encodeAccount (entry : Address × AccountStateDiff) : Except StateDiffError Bytes := do
  let (type, diffEncoded) ← entry.2.encode
  pure ([type] ++ entry.1.toList ++ diffEncoded)

/-- `StateDiff::encode`. -/
def StateDiff.encode (self : StateDiff) : Except StateDiffError Bytes := do
  if self.version ≠ 1 then
    throw (.unsupportedVersion self.version)
  let modifiedAccountsLen ← tryIntoU16 self.modifiedAccounts.length
  let accounts ← self.modifiedAccounts.mapM encodeAccount
  pure ([self.version] ++ u16ToBeBytes modifiedAccountsLen ++ accounts.flatten ++
    self.withdrawalLogs.flatMap WithdrawalLog.encode ++ self.depositLogs.flatMap DepositLog.encode)

/-- The bytes after the accounts: the withdrawal logs, then the deposit logs. -/
def StateDiff.logBytes (self : StateDiff) : Bytes :=
  self.withdrawalLogs.flatMap WithdrawalLog.encode ++ self.depositLogs.flatMap DepositLog.encode

/-- An account diff that sets its bytecode and nothing else. -/
def AccountStateDiff.bytecodeOnly (code : Bytes) : AccountStateDiff :=
  { newBalance := none, nonceDiff := 0, storage := [], bytecode := some code, bytecodeHash := none }

/-! ## What the layout does not record -/

theorem AccountStateDiff.encode_bytecodeOnly (code : Bytes) :
    (AccountStateDiff.bytecodeOnly code).encode = .ok (8, [0, 0] ++ code) := by
  simp [AccountStateDiff.encode, AccountStateDiff.bytecodeOnly, tryIntoU16, u16ToBeBytes,
    BigEndian.toBytes, AccountStateDiffType.toU8]

theorem encodeAccount_bytecodeOnly (address : Address) (code : Bytes) :
    encodeAccount (address, .bytecodeOnly code) = .ok ([8] ++ address.toList ++ ([0, 0] ++ code)) := by
  rw [encodeAccount, AccountStateDiff.encode_bytecodeOnly]
  rfl

theorem StateDiff.encode_of_logBytes_eq {d₁ d₂ : StateDiff} (hversion : d₁.version = d₂.version)
    (haccounts : d₁.modifiedAccounts = d₂.modifiedAccounts) (hlogs : d₁.logBytes = d₂.logBytes) :
    d₁.encode = d₂.encode := by
  unfold StateDiff.logBytes at hlogs
  unfold StateDiff.encode
  simp only [List.append_assoc]
  rw [hversion, haccounts, hlogs]

/-- A state diff with one bytecode-only account and some withdrawals encodes
as the diff whose bytecode swallows the withdrawals. -/
theorem StateDiff.encode_bytecode_swallows (address : Address) (code : Bytes)
    (withdrawals : List WithdrawalLog) :
    (StateDiff.mk 1 [(address, .bytecodeOnly code)] withdrawals []).encode =
      (StateDiff.mk 1 [(address, .bytecodeOnly (code ++ withdrawals.flatMap WithdrawalLog.encode))]
        [] []).encode := by
  unfold StateDiff.encode
  simp only [List.mapM_cons, List.mapM_nil, encodeAccount_bytecodeOnly]
  simp [List.append_assoc]

/-- Two boundaries the encoding does not write, for every state diff: where
the withdrawals end and the deposits begin, and where a bytecode ends. -/
theorem stateDiff_encode_loses_boundaries :
    (∀ d₁ d₂ : StateDiff, d₁.version = d₂.version → d₁.modifiedAccounts = d₂.modifiedAccounts →
      d₁.logBytes = d₂.logBytes → d₁.encode = d₂.encode) ∧
    (∀ (address : Address) (code : Bytes) (withdrawals : List WithdrawalLog),
      (StateDiff.mk 1 [(address, .bytecodeOnly code)] withdrawals []).encode =
        (StateDiff.mk 1 [(address, .bytecodeOnly (code ++ withdrawals.flatMap WithdrawalLog.encode))]
          [] []).encode) :=
  ⟨fun _ _ hversion haccounts hlogs => StateDiff.encode_of_logBytes_eq hversion haccounts hlogs,
    StateDiff.encode_bytecode_swallows⟩

/-- A withdrawal of nothing to the zero address. -/
def zeroWithdrawal : WithdrawalLog := ⟨.replicate 20 0, 0, .replicate 32 0⟩

/-- A deposit of nothing to the zero address. -/
def zeroDeposit : DepositLog := ⟨.replicate 20 0, 0, 0⟩

/-- Thirteen withdrawals, 84 bytes each. -/
def thirteenWithdrawals : StateDiff := ⟨1, [], List.replicate 13 zeroWithdrawal, []⟩

/-- Twenty-one deposits, 52 bytes each. -/
def twentyOneDeposits : StateDiff := ⟨1, [], [], List.replicate 21 zeroDeposit⟩

theorem thirteenWithdrawals_encode_eq_twentyOneDeposits :
    thirteenWithdrawals.encode = .ok ([1, 0, 0] ++ List.replicate 1092 0) ∧
      thirteenWithdrawals.encode = twentyOneDeposits.encode ∧
      thirteenWithdrawals.withdrawalLogs ≠ twentyOneDeposits.withdrawalLogs := by
  have hsame := stateDiff_encode_loses_boundaries.1 thirteenWithdrawals twentyOneDeposits rfl rfl
    (by decide +kernel)
  exact ⟨by decide +kernel, hsame, by decide⟩

end Ethrex.L2
