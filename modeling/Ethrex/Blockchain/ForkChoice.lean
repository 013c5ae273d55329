/-
# `Ethrex.Blockchain.ForkChoice` — `apply_fork_choice` and the canonical chain

`apply_fork_choice` (`crates/blockchain/fork_choice.rs`) takes the head,
safe and finalized hashes of a fork-choice update, checks them against the
store, finds the branch that links the head to the canonical chain
(`find_link_with_canonical_chain`), and rewrites the canonical mapping along
it.

The store is the part of `Store` these functions read and write: the
headers, whether a block's body is there, the canonical mapping from block
numbers to hashes, the earliest, latest, safe and finalized block numbers,
the total difficulties and the chain's terminal total difficulty.  Reads of
the store do not fail here; the errors are the ones the code raises on a
missing value.  Block numbers are `Nat`: the `u64` arithmetic of the source
(`head.number + 1`, `latest + 1`, `block_number -= 1` under its guard)
stays below `2 ^ 64` on every chain shorter than that.

`ChainLinked` is the shape of the canonical mapping that fork choice
maintains: a run of blocks from the earliest to the latest number, each
the parent of the next.  An update that succeeds keeps it, with the head
on top and nothing canonical above (`applyForkChoice_chainLinked`): the loop
of `find_link_with_canonical_chain` returns a `Descends` branch, whose
blocks are written between the link and the head.  The given safe and
finalized blocks need not stay canonical: the check accepts a block canonical at the link's own
number, and the link is the lowest number the update rewrites, so a head
that replaces the finalized block at its number is accepted
(`applyForkChoice_replaces_finalized`).
-/
import Ethrex.Types.Block
import Ethrex.Lib.Checked
import Ethrex.Lib.AssocList

namespace Ethrex.Blockchain

open Ethrex.Rlp (H256 Bytes)
open Ethrex.Types (BlockHeader)

/-- `H256::is_zero`. -/
def isZeroHash (h : H256) : Bool := h.toList.all (· == 0)

/-- `StoreError`: the variants the modelled functions raise. -/
inductive StoreError where
  | missingEarliestBlockNumber
  | missingLatestBlockNumber
  | missingStore
  | custom (msg : String)
  deriving DecidableEq, Repr

/-- `ForkChoiceElement`. -/
inductive ForkChoiceElement where
  | head
  | safe
  | finalized
  deriving DecidableEq, Repr

/-- `InvalidForkChoice`: the variants `apply_fork_choice` raises. -/
inductive InvalidForkChoice where
  | storeError (e : StoreError)
  | syncing
  | invalidHeadHash
  | newHeadAlreadyCanonical
  | elementNotFound (e : ForkChoiceElement)
  | preMergeBlock
  | unordered
  | disconnected (a b : ForkChoiceElement)
  deriving DecidableEq, Repr

/-- The part of `Store` that fork choice reads and writes. -/
structure Store where
  headers : H256 → Option BlockHeader
  hasBody : H256 → Bool
  canonical : Nat → Option H256
  earliestBlockNumber : Option Nat
  latestBlockNumber : Option Nat
  safeBlockNumber : Option Nat
  finalizedBlockNumber : Option Nat
  totalDifficulty : H256 → Option Nat
  terminalTotalDifficulty : Option Nat

namespace Store

/-- `StoreEngine::get_block_by_hash`: the header, when the body is there too. -/
def getBlockByHash (store : Store) (blockHash : H256) : Option BlockHeader :=
  match store.headers blockHash with
  | none => none
  | some header => if store.hasBody blockHash then some header else none

/-- What `apply_fork_choice` reads for the safe and the finalized hash: the
block, unless the hash is zero (not given). -/
def getGivenBlock (store : Store) (blockHash : H256) : Option BlockHeader :=
  if !isZeroHash blockHash then store.getBlockByHash blockHash else none

/-- `Store::set_canonical_block`. -/
def setCanonicalBlock (store : Store) (number : Nat) (hash : H256) : Store :=
  { store with canonical := Function.update store.canonical number (some hash) }

/-- `Store::unset_canonical_block`. -/
def unsetCanonicalBlock (store : Store) (number : Nat) : Store :=
  { store with canonical := Function.update store.canonical number none }

end Store

/-- `is_canonical`. -/
def isCanonical (store : Store) (blockNumber : Nat) (blockHash : H256) : Bool :=
  store.canonical blockNumber == some blockHash

/-- `check_order`: the first block is not above the second, and is there
when the second is. -/
def checkOrder (block1 block2 : Option BlockHeader) : Except InvalidForkChoice Unit :=
  match block1, block2 with
  | none, some _ => .error (.elementNotFound .finalized)
  | some b1, some b2 => if b1.number > b2.number then .error .unordered else .ok ()
  | _, _ => .error .syncing

/-- The loop of `find_link_with_canonical_chain`, `k` steps above the
earliest block number: each step goes down to the parent, and stops at a
canonical one with the branch so far, or at a missing one or at the
earliest number with nothing. -/
def findLinkLoop (store : Store) (genesisNumber : Nat) :
    Nat → BlockHeader → List (Nat × H256) → Option (List (Nat × H256))
  | 0, _, _ => none
  | k + 1, header, branch =>
    let blockNumber := genesisNumber + k
    let parentHash := header.parentHash
    match store.headers parentHash with
    | none => none
    | some parentHeader =>
      if isCanonical store blockNumber parentHash then some branch
      else findLinkLoop store genesisNumber k parentHeader (branch ++ [(blockNumber, parentHash)])

/-- `find_link_with_canonical_chain`: the non-canonical ancestors of `block`
down to the canonical chain, highest first; `some []` when `block` is
canonical, `none` when it does not reach the chain. -/
def findLinkWithCanonicalChain (keccak : Bytes → H256) (store : Store) (block : BlockHeader) :
    Except StoreError (Option (List (Nat × H256))) :=
  let blockNumber := block.number.toNat
  let blockHash := block.computeBlockHash keccak
  if isCanonical store blockNumber blockHash then pure (some [])
  else do
    let genesisNumber ← store.earliestBlockNumber.okOr .missingEarliestBlockNumber
    pure (findLinkLoop store genesisNumber (blockNumber - genesisNumber) block [])

/-- `total_difficulty_check`: a head with difficulty, or the genesis, must
be past the terminal total difficulty, and its parent not. -/
def totalDifficultyCheck (store : Store) (headBlockHash : H256) (headBlock : BlockHeader) :
    Except InvalidForkChoice Unit :=
  if headBlock.difficulty = 0 ∧ headBlock.number ≠ 0 then pure ()
  else do
    let totalDifficulty ← (store.totalDifficulty headBlockHash).okOr
      (.storeError (.custom "Block difficulty not found for head block"))
    let terminalTotalDifficulty ← store.terminalTotalDifficulty.okOr
      (.storeError (.custom "Terminal total difficulty not found in chain config"))
    if totalDifficulty < terminalTotalDifficulty then throw .preMergeBlock
    else if headBlock.number = 0 then pure ()
    else do
      let parentTotalDifficulty ← (store.totalDifficulty headBlock.parentHash).okOr
        (.storeError (.custom "Block difficulty not found for parent block"))
      if parentTotalDifficulty ≥ terminalTotalDifficulty then
        throw (.storeError (.custom "Parent block is already post terminal total difficulty"))
      else pure ()

/-- `link_block_number`: the number of the lowest block of the branch, or
the head's when the branch is empty. -/
def linkBlockNumber (head : BlockHeader) (newCanonicalBlocks : List (Nat × H256)) : Nat :=
  match newCanonicalBlocks.getLast? with
  | some (number, _) => number
  | none => head.number.toNat

/-- The check `apply_fork_choice` makes of the finalized block and, the same
way, of the safe block: canonical and no higher than the link, or the head,
or on the branch. -/
def checkConnected (store : Store) (head : BlockHeader) (headHash : H256)
    (newCanonicalBlocks : List (Nat × H256)) (element : ForkChoiceElement)
    (res : Option BlockHeader) (hash : H256) : Except InvalidForkChoice Unit :=
  match res with
  | none => .ok ()
  | some block =>
    if !((isCanonical store block.number.toNat hash &&
          decide (block.number.toNat ≤ linkBlockNumber head newCanonicalBlocks))
        || (block.number == head.number && hash == headHash)
        || newCanonicalBlocks.contains (block.number.toNat, hash)) then
      .error (.disconnected .head element)
    else .ok ()

/-- The writes that end `apply_fork_choice`, once every check has passed. -/
def Store.applyUpdates (store : Store) (head : BlockHeader) (headHash : H256) (latest : Nat)
    (newCanonicalBlocks : List (Nat × H256)) (finalizedRes safeRes : Option BlockHeader) : Store :=
  -- make all ancestors to head canonical
  let store := newCanonicalBlocks.foldl (fun s entry => s.setCanonicalBlock entry.1 entry.2) store
  -- remove anything after the head from the canonical chain
  let store := (List.range' (head.number.toNat + 1) (latest - head.number.toNat)).foldl
    (fun s number => s.unsetCanonicalBlock number) store
  let store := store.setCanonicalBlock head.number.toNat headHash
  let store := match finalizedRes with
    | some finalized => { store with finalizedBlockNumber := some finalized.number.toNat }
    | none => store
  let store := match safeRes with
    | some safe => { store with safeBlockNumber := some safe.number.toNat }
    | none => store
  { store with latestBlockNumber := some head.number.toNat }

/-- `apply_fork_choice`: the head's header and the store after the update.
Each check that returns early is a guard of its own here. -/
def applyForkChoice (keccak : Bytes → H256) (store : Store) (headHash safeHash finalizedHash : H256) :
    Except InvalidForkChoice (BlockHeader × Store) :=
  if isZeroHash headHash then throw .invalidHeadHash
  else do
    let finalizedRes := store.getGivenBlock finalizedHash
    let safeRes := store.getGivenBlock safeHash
    let headRes := store.getBlockByHash headHash
    (if !isZeroHash safeHash then checkOrder safeRes headRes else pure ())
    (if !isZeroHash finalizedHash && !isZeroHash safeHash then checkOrder finalizedRes safeRes
      else pure ())
    -- a head that is not stored would trigger a sync, which only logs
    let some head := headRes | throw .syncing
    totalDifficultyCheck store headHash head
    let latest ← store.latestBlockNumber.okOr (.storeError .missingLatestBlockNumber)
    (if isCanonical store head.number.toNat headHash && decide (head.number.toNat < latest) then
      throw .newHeadAlreadyCanonical else pure ())
    let some newCanonicalBlocks ← (findLinkWithCanonicalChain keccak store head).mapError .storeError
      | throw (.disconnected .head .safe)
    checkConnected store head headHash newCanonicalBlocks .finalized finalizedRes finalizedHash
    checkConnected store head headHash newCanonicalBlocks .safe safeRes safeHash
    pure (head, store.applyUpdates head headHash latest newCanonicalBlocks finalizedRes safeRes)

theorem isCanonical_iff {store : Store} {n : Nat} {hash : H256} :
    isCanonical store n hash = true ↔ store.canonical n = some hash := by
  simp [isCanonical]

/-! ## The branch `find_link_with_canonical_chain` returns -/

/-- `Descends store hash number ext link`: `ext` lists, highest first, the
blocks from `hash` at `number` down to the canonical chain, which it meets
at `link`.  Nothing when `hash` is canonical at `number`; otherwise
`(number, hash)`, a stored block that is not canonical there, followed by
the blocks from its parent one number below. -/
inductive Descends (store : Store) : H256 → Nat → List (Nat × H256) → Nat → Prop where
  | link {hash : H256} {number : Nat} :
      store.canonical number = some hash → Descends store hash number [] number
  | step {hash : H256} {number link : Nat} {header : BlockHeader} {ext : List (Nat × H256)} :
      store.headers hash = some header → store.canonical (number + 1) ≠ some hash →
      Descends store header.parentHash number ext link →
      Descends store hash (number + 1) ((number + 1, hash) :: ext) link

theorem findLinkLoop_eq_some {store : Store} {genesisNumber : Nat} :
    ∀ {k : Nat} {header : BlockHeader} {branch r : List (Nat × H256)},
      findLinkLoop store genesisNumber (k + 1) header branch = some r →
      ∃ ext link, r = branch ++ ext ∧ genesisNumber ≤ link ∧
        Descends store header.parentHash (genesisNumber + k) ext link := by
  intro k
  induction k with
  | zero =>
    intro header branch r h
    simp only [findLinkLoop] at h
    split at h
    · cases h
    next parentHeader hparent =>
      by_cases hc : isCanonical store (genesisNumber + 0) header.parentHash = true
      · rw [if_pos hc, Option.some.injEq] at h
        exact ⟨[], genesisNumber, by rw [h, List.append_nil], le_rfl, .link (isCanonical_iff.mp hc)⟩
      · rw [if_neg hc] at h
        cases h
  | succ k ih =>
    intro header branch r h
    simp only [findLinkLoop] at h
    split at h
    · cases h
    next parentHeader hparent =>
      by_cases hc : isCanonical store (genesisNumber + (k + 1)) header.parentHash = true
      · rw [if_pos hc, Option.some.injEq] at h
        exact ⟨[], _, by rw [h, List.append_nil], by omega, .link (isCanonical_iff.mp hc)⟩
      · rw [if_neg hc] at h
        -- the parent is not canonical: it heads the rest of the branch
        obtain ⟨ext, link, rfl, hg, hd⟩ := ih h
        refine ⟨_ :: ext, link, by rw [List.append_assoc, List.singleton_append], hg, ?_⟩
        exact .step hparent (fun he => hc (isCanonical_iff.mpr he)) hd

theorem findLinkWithCanonicalChain_eq_ok {keccak : Bytes → H256} {store : Store} {block : BlockHeader}
    {branch : List (Nat × H256)}
    (h : findLinkWithCanonicalChain keccak store block = .ok (some branch)) :
    (store.canonical block.number.toNat = some (block.computeBlockHash keccak) ∧ branch = []) ∨
      ∃ genesisNumber link, store.earliestBlockNumber = some genesisNumber ∧
        genesisNumber < block.number.toNat ∧ genesisNumber ≤ link ∧
        Descends store block.parentHash (block.number.toNat - 1) branch link := by
  unfold findLinkWithCanonicalChain at h
  by_cases hc : isCanonical store block.number.toNat (block.computeBlockHash keccak) = true
  · rw [if_pos hc, Except.pure_eq_ok, Except.ok.injEq, Option.some.injEq] at h
    exact .inl ⟨isCanonical_iff.mp hc, h.symm⟩
  rw [if_neg hc] at h
  obtain ⟨genesisNumber, hg, h⟩ := Except.bind_eq_ok.mp h
  rw [Except.pure_eq_ok, Except.ok.injEq] at h
  -- the loop runs once per number above the earliest one
  obtain ⟨k, hk⟩ : ∃ k, block.number.toNat - genesisNumber = k + 1 := by
    rcases hz : block.number.toNat - genesisNumber with _ | k
    · rw [hz] at h
      cases h
    · exact ⟨k, rfl⟩
  rw [hk] at h
  obtain ⟨ext, link, hr, hle, hd⟩ := findLinkLoop_eq_some h
  rw [List.nil_append] at hr
  subst hr
  refine .inr ⟨genesisNumber, link, Option.okOr_eq_ok.mp hg, by omega, hle, ?_⟩
  rwa [show block.number.toNat - 1 = genesisNumber + k by omega]

namespace Descends

variable {store : Store} {hash : H256} {number link : Nat} {ext : List (Nat × H256)}

theorem link_le (hd : Descends store hash number ext link) : link ≤ number := by
  induction hd with
  | link _ => exact le_rfl
  | step _ _ _ ih => omega

theorem canonical_link (hd : Descends store hash number ext link) : ∃ h, store.canonical link = some h := by
  induction hd with
  | link hc => exact ⟨_, hc⟩
  | step _ _ _ ih => exact ih

theorem mem_bounds (hd : Descends store hash number ext link) {n : Nat} {h : H256} (hm : (n, h) ∈ ext) :
    link < n ∧ n ≤ number := by
  induction hd with
  | link _ => simp at hm
  | step _ _ hrest ih =>
    rcases List.mem_cons.mp hm with he | hm
    · cases he
      exact ⟨Nat.lt_succ_of_le hrest.link_le, le_rfl⟩
    · have := ih hm
      omega

theorem exists_mem (hd : Descends store hash number ext link) {n : Nat} (h₁ : link < n) (h₂ : n ≤ number) :
    ∃ h, (n, h) ∈ ext := by
  induction hd with
  | link _ => omega
  | @step _ number _ _ _ _ _ _ ih =>
    by_cases hn : n = number + 1
    · subst hn
      exact ⟨_, List.mem_cons_self⟩
    · obtain ⟨h, hm⟩ := ih h₁ (by omega)
      exact ⟨h, List.mem_cons_of_mem _ hm⟩

theorem functional (hd : Descends store hash number ext link) : ext.Functional := by
  induction hd with
  | link _ => exact List.functional_nil
  | step _ _ hrest ih =>
    intro p hp q hq hpq
    rcases List.mem_cons.mp hp with rfl | hp <;> rcases List.mem_cons.mp hq with rfl | hq
    · rfl
    · have := hrest.mem_bounds hq
      simp only at hpq
      omega
    · have := hrest.mem_bounds hp
      simp only at hpq
      omega
    · exact ih p hp q hq hpq

theorem top (hd : Descends store hash number ext link) :
    (number, hash) ∈ ext ∨ (link = number ∧ store.canonical number = some hash) := by
  cases hd with
  | link hc => exact .inr ⟨rfl, hc⟩
  | step _ _ _ => exact .inl List.mem_cons_self

theorem linked (hd : Descends store hash number ext link) {n : Nat} {h : H256} (hm : (n + 1, h) ∈ ext) :
    ∃ header, store.headers h = some header ∧
      ((n, header.parentHash) ∈ ext ∨ (n = link ∧ store.canonical n = some header.parentHash)) := by
  induction hd with
  | link _ => simp at hm
  | @step _ number _ header _ hheader _ hrest ih =>
    rcases List.mem_cons.mp hm with he | hm
    · -- the entry is the top: its parent heads the rest
      simp only [Prod.mk.injEq, Nat.add_right_cancel_iff] at he
      obtain ⟨rfl, rfl⟩ := he
      refine ⟨header, hheader, ?_⟩
      rcases hrest.top with ht | ht
      · exact .inl (List.mem_cons_of_mem _ ht)
      · exact .inr ⟨ht.1.symm, ht.2⟩
    · obtain ⟨header', h', hp⟩ := ih hm
      refine ⟨header', h', ?_⟩
      rcases hp with hp | hp
      · exact .inl (List.mem_cons_of_mem _ hp)
      · exact .inr hp

/-! The canonical mapping with the branch written in. -/

theorem over_of_le (hd : Descends store hash number ext link) {n : Nat} (hn : n ≤ link) :
    ext.foldl List.updateEntry store.canonical n = store.canonical n :=
  List.foldl_updateEntry_of_forall_ne (fun p hp he => by
    have := hd.mem_bounds (show (p.1, p.2) ∈ ext from hp)
    omega) _

theorem over_of_gt (hd : Descends store hash number ext link) {n : Nat} (hn : number < n) :
    ext.foldl List.updateEntry store.canonical n = store.canonical n :=
  List.foldl_updateEntry_of_forall_ne (fun p hp he => by
    have := hd.mem_bounds (show (p.1, p.2) ∈ ext from hp)
    omega) _

theorem over_of_mem (hd : Descends store hash number ext link) {n : Nat} {h : H256} (hm : (n, h) ∈ ext) :
    ext.foldl List.updateEntry store.canonical n = some h :=
  List.foldl_updateEntry_of_mem hd.functional hm _

theorem over_top (hd : Descends store hash number ext link) :
    ext.foldl List.updateEntry store.canonical number = some hash := by
  rcases hd.top with ht | ⟨hl, ht⟩
  · exact hd.over_of_mem ht
  · rw [hd.over_of_le hl.ge, ht]

theorem over_isSome (hd : Descends store hash number ext link) {n : Nat} (h₁ : link < n) (h₂ : n ≤ number) :
    (ext.foldl List.updateEntry store.canonical n).isSome := by
  obtain ⟨h, hm⟩ := hd.exists_mem h₁ h₂
  rw [hd.over_of_mem hm]
  rfl

theorem over_linked (hd : Descends store hash number ext link) {earliest : Nat}
    (hlinked : ∀ n hash, earliest ≤ n → n + 1 ≤ link → store.canonical (n + 1) = some hash →
      ∃ header, store.headers hash = some header ∧ store.canonical n = some header.parentHash)
    {n : Nat} {h : H256} (hn : earliest ≤ n) (hle : n + 1 ≤ number)
    (hs : ext.foldl List.updateEntry store.canonical (n + 1) = some h) :
    ∃ header, store.headers h = some header ∧
      ext.foldl List.updateEntry store.canonical n = some header.parentHash := by
  by_cases hl : n + 1 ≤ link
  · -- below the link nothing was written
    rw [hd.over_of_le hl] at hs
    rw [hd.over_of_le (by omega)]
    exact hlinked n h hn hl hs
  · obtain ⟨h', hm⟩ := hd.exists_mem (n := n + 1) (by omega) hle
    rw [hd.over_of_mem hm, Option.some.injEq] at hs
    subst hs
    obtain ⟨header, hheader, hp⟩ := hd.linked hm
    refine ⟨header, hheader, ?_⟩
    rcases hp with hp | ⟨rfl, hp⟩
    · exact hd.over_of_mem hp
    · rw [hd.over_of_le le_rfl, hp]

end Descends

/-! ## The canonical chain -/

/-- The canonical mapping is a chain from `earliest` to `latest`: a hash at
exactly those numbers, each a stored block whose parent is the one below. -/
structure ChainLinked (store : Store) (earliest latest : Nat) : Prop where
  earliest_eq : store.earliestBlockNumber = some earliest
  latest_eq : store.latestBlockNumber = some latest
  earliest_le : earliest ≤ latest
  isSome_iff : ∀ n, (store.canonical n).isSome ↔ earliest ≤ n ∧ n ≤ latest
  linked : ∀ n hash, earliest ≤ n → store.canonical (n + 1) = some hash →
    ∃ header, store.headers hash = some header ∧ store.canonical n = some header.parentHash

/-- Every header is stored under its own hash. -/
def HashesConsistent (keccak : Bytes → H256) (store : Store) : Prop :=
  ∀ hash header, store.headers hash = some header → header.computeBlockHash keccak = hash

theorem Store.headers_of_getBlockByHash {store : Store} {hash : H256} {header : BlockHeader}
    (h : store.getBlockByHash hash = some header) : store.headers hash = some header := by
  unfold Store.getBlockByHash at h
  split at h
  · cases h
  next header' hh =>
    split_ifs at h
    rw [hh, h]

/-! ## What a successful update did -/

section Inversion

variable {keccak : Bytes → H256} {store store' : Store} {headHash safeHash finalizedHash : H256}
  {head : BlockHeader}

/-- Everything `apply_fork_choice` checked when it returns `Ok`, and the
writes it made. -/
theorem applyForkChoice_eq_ok
    (h : applyForkChoice keccak store headHash safeHash finalizedHash = .ok (head, store')) :
    ∃ latest newCanonicalBlocks,
      store.getBlockByHash headHash = some head ∧
      store.latestBlockNumber = some latest ∧
      ¬ (isCanonical store head.number.toNat headHash = true ∧ head.number.toNat < latest) ∧
      findLinkWithCanonicalChain keccak store head = .ok (some newCanonicalBlocks) ∧
      (isZeroHash safeHash = false → checkOrder (store.getGivenBlock safeHash) (some head) = .ok ()) ∧
      (isZeroHash finalizedHash = false → isZeroHash safeHash = false →
        checkOrder (store.getGivenBlock finalizedHash) (store.getGivenBlock safeHash) = .ok ()) ∧
      checkConnected store head headHash newCanonicalBlocks .finalized
        (store.getGivenBlock finalizedHash) finalizedHash = .ok () ∧
      checkConnected store head headHash newCanonicalBlocks .safe
        (store.getGivenBlock safeHash) safeHash = .ok () ∧
      store' = store.applyUpdates head headHash latest newCanonicalBlocks
        (store.getGivenBlock finalizedHash) (store.getGivenBlock safeHash) := by
  unfold applyForkChoice at h
  by_cases hz : isZeroHash headHash = true
  · rw [if_pos hz] at h
    cases h
  rw [if_neg hz] at h
  obtain ⟨_, hsafe, h⟩ := Except.bind_eq_ok.mp h
  obtain ⟨_, hfin, h⟩ := Except.bind_eq_ok.mp h
  split at h
  next hd hhead =>
    obtain ⟨_, -, h⟩ := Except.bind_eq_ok.mp h
    obtain ⟨latest, hlatest, h⟩ := Except.bind_eq_ok.mp h
    obtain ⟨_, hcanon, h⟩ := Except.bind_eq_ok.mp h
    obtain ⟨res, hlink, h⟩ := Except.bind_eq_ok.mp h
    split at h
    next branch =>
      obtain ⟨_, hcf, h⟩ := Except.bind_eq_ok.mp h
      obtain ⟨_, hcs, h⟩ := Except.bind_eq_ok.mp h
      rw [Except.pure_eq_ok, Except.ok.injEq, Prod.mk.injEq] at h
      obtain ⟨rfl, rfl⟩ := h
      refine ⟨latest, branch, hhead, Option.okOr_eq_ok.mp hlatest, ?_, Except.mapError_eq_ok.mp hlink,
        ?_, ?_, hcf, hcs, rfl⟩
      · intro hc
        rw [if_pos (by simpa using hc)] at hcanon
        cases hcanon
      · intro hs
        rw [if_pos (by simpa using hs), hhead] at hsafe
        exact hsafe
      · intro hf hs
        rw [if_pos (by simp [hf, hs])] at hfin
        exact hfin
    next => cases h
  next => cases h

end Inversion

/-! ## The writes -/

namespace Store

theorem foldl_setCanonicalBlock (l : List (Nat × H256)) (store : Store) :
    l.foldl (fun s entry => s.setCanonicalBlock entry.1 entry.2) store =
      { store with canonical := l.foldl List.updateEntry store.canonical } := by
  induction l generalizing store with
  | nil => rfl
  | cons e l ih =>
    rw [List.foldl_cons, ih]
    rfl

theorem foldl_unsetCanonicalBlock (a k : Nat) (store : Store) :
    (List.range' a k).foldl (fun s number => s.unsetCanonicalBlock number) store =
      { store with
        canonical := (List.range' a k).foldl (fun g n => Function.update g n none) store.canonical } := by
  induction k generalizing a store with
  | zero => rfl
  | succ k ih =>
    rw [List.range'_succ, List.foldl_cons, ih]
    rfl

end Store

theorem foldl_clear_apply (a k : Nat) (g : Nat → Option H256) (n : Nat) :
    (List.range' a k).foldl (fun g n => Function.update g n none) g n =
      if a ≤ n ∧ n < a + k then none else g n := by
  induction k generalizing a g with
  | zero =>
    rw [if_neg (by omega)]
    rfl
  | succ k ih =>
    rw [List.range'_succ, List.foldl_cons, ih]
    by_cases hn : n = a
    · subst hn
      simp
    · rw [Function.update_of_ne hn]
      congr 1
      simp only [eq_iff_iff]
      omega

section Updates

variable {store : Store} {head : BlockHeader} {headHash : H256} {latest : Nat}
  {branch : List (Nat × H256)} {finalizedRes safeRes : Option BlockHeader}

/-- After the update the head is canonical at its number, nothing is from
there to the old latest number, and the branch is written below it. -/
theorem Store.applyUpdates_canonical (n : Nat) :
    (store.applyUpdates head headHash latest branch finalizedRes safeRes).canonical n =
      if n = head.number.toNat then some headHash
      else if head.number.toNat < n ∧ n ≤ latest then none
      else branch.foldl List.updateEntry store.canonical n := by
  have hc : (store.applyUpdates head headHash latest branch finalizedRes safeRes).canonical =
      Function.update ((List.range' (head.number.toNat + 1) (latest - head.number.toNat)).foldl
        (fun g n => Function.update g n none) (branch.foldl List.updateEntry store.canonical))
        head.number.toNat (some headHash) := by
    simp only [Store.applyUpdates, Store.foldl_setCanonicalBlock, Store.foldl_unsetCanonicalBlock]
    cases finalizedRes <;> cases safeRes <;> rfl
  rw [hc]
  by_cases hn : n = head.number.toNat
  · rw [hn, Function.update_self, if_pos rfl]
  rw [Function.update_of_ne hn, foldl_clear_apply, if_neg hn]
  congr 1
  simp only [eq_iff_iff]
  omega

@[simp] theorem Store.applyUpdates_headers :
    (store.applyUpdates head headHash latest branch finalizedRes safeRes).headers = store.headers := by
  simp only [Store.applyUpdates, Store.foldl_setCanonicalBlock, Store.foldl_unsetCanonicalBlock]
  cases finalizedRes <;> cases safeRes <;> rfl

@[simp] theorem Store.applyUpdates_earliestBlockNumber :
    (store.applyUpdates head headHash latest branch finalizedRes safeRes).earliestBlockNumber =
      store.earliestBlockNumber := by
  simp only [Store.applyUpdates, Store.foldl_setCanonicalBlock, Store.foldl_unsetCanonicalBlock]
  cases finalizedRes <;> cases safeRes <;> rfl

@[simp] theorem Store.applyUpdates_latestBlockNumber :
    (store.applyUpdates head headHash latest branch finalizedRes safeRes).latestBlockNumber =
      some head.number.toNat := by
  unfold Store.applyUpdates
  cases finalizedRes <;> cases safeRes <;> rfl

@[simp] theorem Store.applyUpdates_finalizedBlockNumber {finalized : BlockHeader} :
    (store.applyUpdates head headHash latest branch (some finalized) safeRes).finalizedBlockNumber =
      some finalized.number.toNat := by
  unfold Store.applyUpdates
  cases safeRes <;> rfl

end Updates

/-! ## The canonical chain stays a chain -/

section Chain

variable {store : Store} {earliest latest : Nat} {head : BlockHeader} {headHash : H256}
  {finalizedRes safeRes : Option BlockHeader}

theorem ChainLinked.applyUpdates_of_canonical (hc : ChainLinked store earliest latest)
    (hcan : store.canonical head.number.toNat = some headHash) (hlt : ¬ head.number.toNat < latest) :
    ChainLinked (store.applyUpdates head headHash latest [] finalizedRes safeRes) earliest
      head.number.toNat := by
  have hN : head.number.toNat = latest := by
    have := (hc.isSome_iff head.number.toNat).mp (by simp [hcan])
    omega
  have hsame : ∀ n, (store.applyUpdates head headHash latest [] finalizedRes safeRes).canonical n =
      store.canonical n := by
    intro n
    rw [Store.applyUpdates_canonical]
    by_cases h1 : n = head.number.toNat
    · rw [if_pos h1, h1, hcan]
    · rw [if_neg h1, if_neg (by omega), List.foldl_nil]
  refine ⟨by simp [hc.earliest_eq], by simp, hN ▸ hc.earliest_le, ?_, ?_⟩
  · intro n
    rw [hsame, hN]
    exact hc.isSome_iff n
  · intro n hash hn hs
    rw [hsame] at hs
    rw [hsame, Store.applyUpdates_headers]
    exact hc.linked n hash hn hs

/-- A head reached through a branch: the branch is written between the
link and the head, the head on top, and nothing above it. -/
theorem ChainLinked.applyUpdates_of_descends {branch : List (Nat × H256)} {link : Nat}
    (hc : ChainLinked store earliest latest) (hhead : store.headers headHash = some head)
    (hd : Descends store head.parentHash (head.number.toNat - 1) branch link)
    (hlink : earliest ≤ link) (hnum : earliest < head.number.toNat) :
    ChainLinked (store.applyUpdates head headHash latest branch finalizedRes safeRes) earliest
      head.number.toNat := by
  obtain ⟨m, hm⟩ : ∃ m, head.number.toNat = m + 1 := ⟨head.number.toNat - 1, by omega⟩
  rw [hm, Nat.add_sub_cancel] at hd
  have hlm : link ≤ m := hd.link_le
  have hll : link ≤ latest := by
    obtain ⟨h, hh⟩ := hd.canonical_link
    have := (hc.isSome_iff link).mp (by simp [hh])
    omega
  refine ⟨by simp [hc.earliest_eq], by simp, by omega, ?_, ?_⟩
  · intro n
    rw [Store.applyUpdates_canonical, hm]
    by_cases h1 : n = m + 1
    · simp only [if_pos h1, Option.isSome_some, true_iff]
      omega
    rw [if_neg h1]
    by_cases h2 : m + 1 < n ∧ n ≤ latest
    · simp only [if_pos h2, Option.isSome_none, Bool.false_eq_true, false_iff]
      omega
    rw [if_neg h2]
    -- below the head: the old chain up to the link, the branch above it
    by_cases h3 : n ≤ link
    · rw [hd.over_of_le h3, hc.isSome_iff]
      omega
    by_cases h4 : n ≤ m
    · simp only [hd.over_isSome (by omega) h4, true_iff]
      omega
    · rw [hd.over_of_gt (by omega), hc.isSome_iff]
      omega
  · intro n hash hn hs
    rw [Store.applyUpdates_canonical, hm] at hs
    rw [Store.applyUpdates_canonical, hm, Store.applyUpdates_headers]
    by_cases h1 : n + 1 = m + 1
    · -- the head: its parent is the top of the branch
      obtain rfl : n = m := by omega
      rw [if_pos rfl, Option.some.injEq] at hs
      subst hs
      rw [if_neg (by omega), if_neg (by omega)]
      exact ⟨head, hhead, hd.over_top⟩
    rw [if_neg h1] at hs
    by_cases h2 : m + 1 < n + 1 ∧ n + 1 ≤ latest
    · rw [if_pos h2] at hs
      cases hs
    rw [if_neg h2] at hs
    by_cases h3 : n + 1 ≤ m
    · rw [if_neg (by omega), if_neg (by omega)]
      exact hd.over_linked (fun n hash hn _ => hc.linked n hash hn) hn h3 hs
    · -- above the head and the old latest number nothing was canonical
      rw [hd.over_of_gt (by omega)] at hs
      have := (hc.isSome_iff (n + 1)).mp (by simp [hs])
      omega

end Chain

/-- An update that succeeds on a store whose canonical mapping is a chain
leaves a chain from the same earliest number up to the head, with the head
on top and nothing canonical above it. -/
theorem applyForkChoice_chainLinked {keccak : Bytes → H256} {store store' : Store}
    {earliest latest : Nat} {headHash safeHash finalizedHash : H256} {head : BlockHeader}
    (hc : ChainLinked store earliest latest) (hk : HashesConsistent keccak store)
    (h : applyForkChoice keccak store headHash safeHash finalizedHash = .ok (head, store')) :
    ChainLinked store' earliest head.number.toNat ∧ store'.canonical head.number.toNat = some headHash := by
  obtain ⟨latest', branch, hhead, hlatest, hnot, hlink, -, -, -, -, rfl⟩ := applyForkChoice_eq_ok h
  rw [hc.latest_eq, Option.some.injEq] at hlatest
  subst hlatest
  have hstored := Store.headers_of_getBlockByHash hhead
  refine ⟨?_, by rw [Store.applyUpdates_canonical, if_pos rfl]⟩
  rcases findLinkWithCanonicalChain_eq_ok hlink with ⟨hcan, rfl⟩ | ⟨g, link, hg, hnum, hle, hd⟩
  · -- the head was canonical: only at the latest number does the update go through
    rw [hk _ _ hstored] at hcan
    exact hc.applyUpdates_of_canonical hcan (fun hlt => hnot ⟨isCanonical_iff.mpr hcan, hlt⟩)
  · rw [hc.earliest_eq, Option.some.injEq] at hg
    subst hg
    exact hc.applyUpdates_of_descends hstored hd hle hnum


/-- `siblingStore` below with a hash function that stores every header under
its own hash. -/
def siblingKeccak (b : Bytes) : H256 :=
  if b = ({ (default : BlockHeader) with number := 1, parentHash := .replicate 32 1 } : BlockHeader).encode
  then .replicate 32 2
  else if b = ({ (default : BlockHeader) with number := 1, parentHash := .replicate 32 1, gasLimit := 1 } :
      BlockHeader).encode then .replicate 32 3
  else .replicate 32 1

/-! ## A reorg that replaces the finalized block -/

theorem totalDifficultyCheck_of_postMerge {store : Store} {hash : H256} {head : BlockHeader}
    (h : head.difficulty = 0 ∧ head.number ≠ 0) : totalDifficultyCheck store hash head = .ok () :=
  if_pos h

theorem findLinkWithCanonicalChain_of_parent {keccak : Bytes → H256} {store : Store}
    {block parent : BlockHeader} {earliest : Nat}
    (hnot : store.canonical block.number.toNat ≠ some (block.computeBlockHash keccak))
    (hearliest : store.earliestBlockNumber = some earliest) (hlt : earliest < block.number.toNat)
    (hparent : store.headers block.parentHash = some parent)
    (hlink : store.canonical (block.number.toNat - 1) = some block.parentHash) :
    findLinkWithCanonicalChain keccak store block = .ok (some []) := by
  obtain ⟨k, hk⟩ : ∃ k, block.number.toNat - earliest = k + 1 := ⟨block.number.toNat - earliest - 1, by omega⟩
  have hlink' : isCanonical store (earliest + k) block.parentHash = true := by
    rw [isCanonical_iff, show earliest + k = block.number.toNat - 1 by omega, hlink]
  unfold findLinkWithCanonicalChain
  rw [if_neg (fun h => hnot (isCanonical_iff.mp h)), hearliest, Option.okOr_some, Except.ok_bind, hk]
  simp only [findLinkLoop, hparent, hlink', if_true]
  rfl

/-- A head that replaces the canonical block at its own number, with the
canonical block there given as finalized, is accepted: the finalized block
is canonical and not above the link, which is the head's own number.  The
update then makes the head canonical at that number and records the number
as finalized. -/
theorem applyForkChoice_replaces_finalized {keccak : Bytes → H256} {store : Store}
    {headHash safeHash finalizedHash : H256} {head finalized parent : BlockHeader}
    {earliest latest : Nat}
    (hgiven : isZeroHash headHash = false ∧ isZeroHash finalizedHash = false)
    (hsafe : isZeroHash safeHash = true)
    (hhead : store.getBlockByHash headHash = some head) (hhash : head.computeBlockHash keccak = headHash)
    (hfinalized : store.getBlockByHash finalizedHash = some finalized)
    (hnumber : finalized.number = head.number)
    (hcan : store.canonical head.number.toNat = some finalizedHash) (hne : finalizedHash ≠ headHash)
    (hpost : head.difficulty = 0 ∧ head.number ≠ 0)
    (hparent : store.headers head.parentHash = some parent)
    (hlink : store.canonical (head.number.toNat - 1) = some head.parentHash)
    (hearliest : store.earliestBlockNumber = some earliest) (hlt : earliest < head.number.toNat)
    (hlatest : store.latestBlockNumber = some latest) :
    ∃ store', applyForkChoice keccak store headHash safeHash finalizedHash = .ok (head, store') ∧
      store'.canonical finalized.number.toNat = some headHash ∧
      store'.finalizedBlockNumber = some finalized.number.toNat := by
  have hheadCan : isCanonical store head.number.toNat headHash = false := by
    rw [Bool.eq_false_iff, ne_eq, isCanonical_iff, hcan, Option.some.injEq]
    exact hne
  have hfind : findLinkWithCanonicalChain keccak store head = .ok (some []) :=
    findLinkWithCanonicalChain_of_parent (by rw [hhash, hcan, ne_eq, Option.some.injEq]; exact hne)
      hearliest hlt hparent hlink
  have hfinGiven : store.getGivenBlock finalizedHash = some finalized := by
    rw [Store.getGivenBlock, hgiven.2, hfinalized]
    rfl
  have hsafeGiven : store.getGivenBlock safeHash = none := by
    rw [Store.getGivenBlock, hsafe]
    rfl
  -- the finalized block passes as canonical at the link, the head's number
  have hconnected : checkConnected store head headHash [] .finalized (some finalized) finalizedHash =
      .ok () := by
    have hok : isCanonical store head.number.toNat finalizedHash = true := by
      rw [isCanonical_iff, hcan]
    simp [checkConnected, linkBlockNumber, hnumber, hok]
  refine ⟨store.applyUpdates head headHash latest [] (some finalized) none, ?_, ?_,
    Store.applyUpdates_finalizedBlockNumber⟩
  · unfold applyForkChoice
    rw [if_neg (by simp [hgiven.1])]
    simp only [hfinGiven, hsafeGiven, hsafe, hhead, Bool.not_true, Bool.and_false, Bool.false_eq_true,
      if_false, Except.pure_eq_ok, Except.ok_bind, totalDifficultyCheck_of_postMerge hpost, hlatest,
      Option.okOr_some, hheadCan, Bool.false_and, hfind, Except.mapError, hconnected]
    rfl
  · rw [Store.applyUpdates_canonical, hnumber, if_pos rfl]

/-- A chain of a genesis block `G` (hash `1…1`) and its child `A` (`2…2`)
at number 1, with a second child `B` (`3…3`) stored beside `A`. -/
def siblingStore : Store where
  headers h :=
    if h = .replicate 32 1 then some default
    else if h = .replicate 32 2 then some { (default : BlockHeader) with number := 1, parentHash := .replicate 32 1 }
    else if h = .replicate 32 3 then
      some { (default : BlockHeader) with number := 1, parentHash := .replicate 32 1, gasLimit := 1 }
    else none
  hasBody _ := true
  canonical n := if n = 0 then some (.replicate 32 1) else if n = 1 then some (.replicate 32 2) else none
  earliestBlockNumber := some 0
  latestBlockNumber := some 1
  safeBlockNumber := none
  finalizedBlockNumber := none
  totalDifficulty _ := none
  terminalTotalDifficulty := none

theorem siblingStore_chainLinked : ChainLinked siblingStore 0 1 := by
  refine ⟨rfl, rfl, by omega, ?_, ?_⟩
  · intro n
    rcases n with _ | _ | n <;> simp [siblingStore]
  · intro n hash _ hs
    rcases n with _ | n
    · simp only [siblingStore, Nat.zero_add, if_neg Nat.one_ne_zero, if_true, Option.some.injEq] at hs
      subst hs
      exact ⟨_, rfl, rfl⟩
    · simp [siblingStore] at hs

/-- On that chain, the update to head `B` with `A` finalized and no safe
block goes through, leaves `B` canonical at number 1, and records 1 as the
finalized number: `A` is finalized and no longer canonical. -/
theorem applyForkChoice_sibling_drops_finalized :
    ChainLinked siblingStore 0 1 ∧
      ∃ store', applyForkChoice (fun _ => .replicate 32 3) siblingStore (.replicate 32 3)
          (.replicate 32 0) (.replicate 32 2) =
            .ok ({ (default : BlockHeader) with number := 1, parentHash := .replicate 32 1, gasLimit := 1 },
              store') ∧
        store'.canonical 1 = some (.replicate 32 3) ∧ store'.finalizedBlockNumber = some 1 := by
  have hA : siblingStore.getBlockByHash (.replicate 32 2) =
      some { (default : BlockHeader) with number := 1, parentHash := .replicate 32 1 } := rfl
  exact ⟨siblingStore_chainLinked, applyForkChoice_replaces_finalized ⟨by decide, by decide⟩ (by decide)
    rfl rfl hA rfl rfl (by decide) ⟨rfl, by decide⟩ rfl rfl rfl (by decide) rfl⟩

set_option maxRecDepth 20000 in
theorem siblingStore_hashesConsistent : HashesConsistent siblingKeccak siblingStore := by
  intro hash header h
  simp only [siblingStore] at h
  split_ifs at h with h₁ h₂ h₃ <;> cases h
  · subst h₁
    decide
  · subst h₂
    decide
  · subst h₃
    decide

set_option maxRecDepth 20000 in
/-- On the sibling chain, with every header under its own hash, the update
to `B` with `A` safe and `G` finalized succeeds and leaves a chain up to `B`. -/
theorem applyForkChoice_sibling_chain :
    ∃ store', applyForkChoice siblingKeccak siblingStore (.replicate 32 3) (.replicate 32 2)
        (.replicate 32 1) =
          .ok ({ (default : BlockHeader) with number := 1, parentHash := .replicate 32 1, gasLimit := 1 },
            store') ∧
      ChainLinked store' 0 1 ∧ store'.canonical 1 = some (.replicate 32 3) := by
  obtain ⟨store', h⟩ : ∃ s, applyForkChoice siblingKeccak siblingStore (.replicate 32 3)
      (.replicate 32 2) (.replicate 32 1) =
        .ok ({ (default : BlockHeader) with number := 1, parentHash := .replicate 32 1, gasLimit := 1 }, s) :=
    ⟨_, rfl⟩
  exact ⟨store', h, applyForkChoice_chainLinked siblingStore_chainLinked siblingStore_hashesConsistent h⟩

end Ethrex.Blockchain
