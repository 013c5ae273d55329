/-
# `Ethrex.Store.AccountUpdates` — an account's storage trie under its updates

`Store::apply_account_updates` writes each account's added storage into the
storage trie opened at the account's `storage_root`: a slot whose value is
zero is removed, any other set to the RLP of its value, each under
`hash_key` of its key, and the trie's hash becomes the new `storage_root`.
The loop stops at the first error, a run of calls does not; on a trie that
holds a map the two agree (`applyAddedStorage_keeps`), since every call
succeeds there, and the theorems of `Ethrex.Trie.Persist` carry over: the
storage trie opened at the new root holds the slots updated.

The state trie, the account record and the code store of
`apply_account_updates` are not modelled here.
-/
import Ethrex.Trie.Persist

namespace Ethrex.Store

open Ethrex.Rlp Ethrex.Mpt Ethrex.Mpt.Trie

section Storage

variable (keccak : Bytes → H256)

/-- `hash_key`. -/
def hashKey (key : H256) : Bytes := (keccak key.toList).toList

/-- The storage loop of `Store::apply_account_updates`: each added slot
written into the storage trie, a zero value removing it; the first error
ends the loop. -/
def applyAddedStorage (storageTrie : Trie) : List (H256 × U256) → Except TrieError Unit × Trie
  | [] => (.ok (), storageTrie)
  | (storageKey, storageValue) :: rest =>
    let hashedKey := hashKey keccak storageKey
    if storageValue = 0 then
      match storageTrie.remove keccak hashedKey with
      | (.ok _, storageTrie) => applyAddedStorage storageTrie rest
      | (.error e, storageTrie) => (.error e, storageTrie)
    else
      match storageTrie.insert keccak hashedKey (U256.encode storageValue) with
      | (.ok (), storageTrie) => applyAddedStorage storageTrie rest
      | (.error e, storageTrie) => (.error e, storageTrie)

/-- The trie call a slot makes. -/
def slotOp (slot : H256 × U256) : Op :=
  if slot.2 = 0 then .remove (hashKey keccak slot.1)
  else .insert (hashKey keccak slot.1) (U256.encode slot.2)

variable {keccak}

theorem slotOp_valid (slot : H256 × U256) : (slotOp keccak slot).Valid := by
  unfold slotOp
  split
  · trivial
  · exact RLPType.encode_ne_nil .u256 slot.2

theorem applyAddedStorage_cons {self : Trie} {slot : H256 × U256} {r : Option ValueRLP}
    (hok : (self.step keccak (slotOp keccak slot)).1 = .ok r) (rest : List (H256 × U256)) :
    applyAddedStorage keccak self (slot :: rest) =
      applyAddedStorage keccak (self.step keccak (slotOp keccak slot)).2 rest := by
  obtain ⟨storageKey, storageValue⟩ := slot
  by_cases hv : storageValue = 0
  · -- a zero value: the call is `Trie::remove`
    simp only [slotOp, applyAddedStorage, step, hv, if_true] at hok ⊢
    generalize self.remove keccak (hashKey keccak storageKey) = res at hok ⊢
    rcases res with ⟨_ | _, t⟩
    · cases hok
    · rfl
  · -- any other value: the call is `Trie::insert`
    simp only [slotOp, applyAddedStorage, step, hv, if_false] at hok ⊢
    generalize self.insert keccak (hashKey keccak storageKey) (U256.encode storageValue) = res at hok ⊢
    rcases res with ⟨_ | _, t⟩
    · cases hok
    · rfl

/-- On a trie that holds `M`, the loop is the run of the slots' calls: it
succeeds and leaves the trie the run leaves, which holds `M` with each
slot written, unless a hash names two nodes in the cache and the database. -/
theorem applyAddedStorage_keeps {self : Trie} {M : Bytes → Option ValueRLP}
    {slots : List (H256 × U256)} (h : self.Keeps keccak M)
    (hc : (self.runOps keccak (slots.map (slotOp keccak))).2.state.Consistent) :
    applyAddedStorage keccak self slots = (.ok (), (self.runOps keccak (slots.map (slotOp keccak))).2) ∧
      (self.runOps keccak (slots.map (slotOp keccak))).2.Keeps keccak
        (Op.runMap M (slots.map (slotOp keccak))).2 := by
  induction slots generalizing self M with
  | nil => exact ⟨rfl, h⟩
  | cons slot rest ih =>
    -- the first call's state is a part of the run's
    obtain ⟨w, hw⟩ := runOps_grows keccak (self.step keccak (slotOp keccak slot)).2
      (rest.map (slotOp keccak))
    obtain ⟨hok, hK⟩ := h.step (slotOp_valid slot) (hc.of_grows hw)
    obtain ⟨heq, hK'⟩ := ih hK hc
    exact ⟨(applyAddedStorage_cons hok rest).trans heq, hK'⟩

/-- The storage half of `apply_account_updates`: the storage trie opened at
an account's `storage_root`, where it holds `M`, takes the added slots
without error, and its hash is a root at which `Trie::open` holds `M` with
every slot written, a zero value removed and any other set to its RLP, each
under `hash_key` of its key. -/
theorem applyAddedStorage_hash {db : Bytes → Option Bytes} {storageRoot : H256}
    {M : Bytes → Option ValueRLP} {slots : List (H256 × U256)}
    (h : (openAt keccak db storageRoot).Keeps keccak M)
    (hc : ((openAt keccak db storageRoot).runOps keccak (slots.map (slotOp keccak))).2.state.Consistent)
    (hlen : ∀ e ∈ ((openAt keccak db storageRoot).runOps keccak (slots.map (slotOp keccak))).2.state.cache,
      e.2.encode.length < 2 ^ 64)
    (hroot : ∀ r ∈ ((openAt keccak db storageRoot).runOps keccak (slots.map (slotOp keccak))).2.root,
      r.IsHashed ∧ r.finalize keccak ≠ emptyTrieHash keccak) :
    applyAddedStorage keccak (openAt keccak db storageRoot) slots =
        (.ok (), ((openAt keccak db storageRoot).runOps keccak (slots.map (slotOp keccak))).2) ∧
      ∃ storageRoot' self', (applyAddedStorage keccak (openAt keccak db storageRoot) slots).2.hash keccak =
          (.ok storageRoot', self') ∧
        ∀ path, (openAt keccak self'.state.db storageRoot').get path =
          .ok ((Op.runMap M (slots.map (slotOp keccak))).2 path) := by
  obtain ⟨heq, hK⟩ := applyAddedStorage_keeps h hc
  obtain ⟨self', hhash, hK'⟩ := hK.hash hc hlen hroot
  refine ⟨heq, _, self', by rw [heq]; exact hhash, fun path => hK'.get path⟩

/-- Two slots on a storage trie reopened from a committed database: the
first set to five, the second, absent, removed.  The stand-in for `keccak`
keeps an input's first 32 bytes, so a slot's path is its key. -/
def twoSlots : List (H256 × U256) := [(List.Vector.replicate 32 1, 5), (List.Vector.replicate 32 2, 0)]

set_option maxRecDepth 8000 in
/-- The slots written into the storage trie the first session committed, and
hashed: `Trie::open` at the new root holds the session's map with the first
slot added. -/
theorem applyAddedStorage_hash_reopened :
    (openAt firstBytes32 sessionDb sessionRoot).Keeps firstBytes32 (Op.runMap (fun _ => none) longShort).2 ∧
      ((openAt firstBytes32 sessionDb sessionRoot).runOps firstBytes32
        (twoSlots.map (slotOp firstBytes32))).2.state.Consistent ∧
      (∀ e ∈ ((openAt firstBytes32 sessionDb sessionRoot).runOps firstBytes32
          (twoSlots.map (slotOp firstBytes32))).2.state.cache,
        e.2.encode.length < 2 ^ 64) ∧
      (∀ r ∈ ((openAt firstBytes32 sessionDb sessionRoot).runOps firstBytes32
          (twoSlots.map (slotOp firstBytes32))).2.root,
        r.IsHashed ∧ r.finalize firstBytes32 ≠ emptyTrieHash firstBytes32) ∧
      applyAddedStorage firstBytes32 (openAt firstBytes32 sessionDb sessionRoot) twoSlots =
        (.ok (), ((openAt firstBytes32 sessionDb sessionRoot).runOps firstBytes32
          (twoSlots.map (slotOp firstBytes32))).2) ∧
      ∃ storageRoot' self',
        (applyAddedStorage firstBytes32 (openAt firstBytes32 sessionDb sessionRoot) twoSlots).2.hash
            firstBytes32 = (.ok storageRoot', self') ∧
          ∀ path, (openAt firstBytes32 self'.state.db storageRoot').get path =
            .ok ((Op.runMap (Op.runMap (fun _ => none) longShort).2
              (twoSlots.map (slotOp firstBytes32))).2 path) := by
  have hc : ((openAt firstBytes32 sessionDb sessionRoot).runOps firstBytes32
      (twoSlots.map (slotOp firstBytes32))).2.state.Consistent := by
    decide
  have hlen : ∀ e ∈ ((openAt firstBytes32 sessionDb sessionRoot).runOps firstBytes32
      (twoSlots.map (slotOp firstBytes32))).2.state.cache,
      e.2.encode.length < 2 ^ 64 := by
    decide
  have hroot : ∀ r ∈ ((openAt firstBytes32 sessionDb sessionRoot).runOps firstBytes32
      (twoSlots.map (slotOp firstBytes32))).2.root,
      r.IsHashed ∧ r.finalize firstBytes32 ≠ emptyTrieHash firstBytes32 := by
    decide
  exact ⟨keeps_session, hc, hlen, hroot, applyAddedStorage_hash keeps_session hc hlen hroot⟩

end Storage

end Ethrex.Store
