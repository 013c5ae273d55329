/-
# `Ethrex.L2.MerkleTree` — the withdrawals root and its proofs

The committer posts, for each L2 block, `merkelize` of the block's
withdrawal hashes (`l2/utils/merkle_tree.rs`).  A user claims a withdrawal
on L1 with the proof `merkle_proof` builds from the same list (through the
SDK's `get_withdraw_merkle_proof`, with the withdrawal's position in the
list), and `CommonBridge._verifyWithdrawProof` folds the withdrawal's leaf
with that proof and compares the result with the posted root.

`merkelize` hashes the list up in pairs, duplicating an odd last node,
until one node is left, and it hashes at least once: a single leaf's root
is the hash of the leaf with itself.  This is `MerkleLevels.top`
(`merkelize_eq_top`).  `merkle_proof` finds the target at each level by
value, not by position, and records one sibling per level with no
direction bit.  For distinct leaves, and a Keccak that tells apart the
pairs of each level, that is the index path of `MerkleLevels.path`
(`merkleProof_eq_path`).  The contract's fold is `MerkleLevels.fold`, so
the claim verifies (`withdrawal_proofs_verify`).

Keccak-256 is a parameter.  The `flat_map` over `Result`s keeps the `Ok`
hashes and drops the errors; no chunk is empty, so none is dropped.  The
`while` loops run on fuel: one turn more than the list has elements, which
the proofs show is enough.
-/
import Ethrex.Lib.MerkleLevels
import Ethrex.Lib.Checked
import Ethrex.Rlp.Encode
import Ethrex.Lib.HashStandIn

namespace Ethrex.L2

open Ethrex.Rlp (Bytes H256)
open MerkleLevels

/-- `MerkleError`. -/
inductive MerkleError where
  | leftElementIsNone
  | dataVectorIsEmpty

/-- `slice::chunks(2)`. -/
def chunks2 {α : Type} : List α → List (List α)
  | [] => []
  | [a] => [[a]]
  | a :: b :: rest => [a, b] :: chunks2 rest

variable (keccak : Bytes → H256)

/-- `keccak([left.as_bytes(), right.as_bytes()].concat())`. -/
def hashPair (left right : H256) : H256 := keccak (left.toList ++ right.toList)

/-- The closure of `merkelize`'s `flat_map`: a chunk's first node hashed
with its second, or with itself. -/
def hashChunk (chunk : List H256) : Except MerkleError H256 := do
  let left ← chunk.head?.okOr .leftElementIsNone
  let right := chunk[1]?.getD left
  pure (hashPair keccak left right)

/-- One level of `merkelize`: the chunks' hashes that are `Ok`. -/
def merkelizeLevel (data : List H256) : List H256 :=
  (chunks2 data).filterMap fun chunk => (hashChunk keccak chunk).toOption

/-- The `while data.len() > 1 || first` loop of `merkelize`. -/
def merkelizeLoop : Nat → Bool → List H256 → List H256
  | 0, _, data => data
  | fuel + 1, first, data =>
    if data.length > 1 || first then merkelizeLoop fuel false (merkelizeLevel keccak data) else data

/-- `merkelize`. -/
def merkelize (data : List H256) : Except MerkleError H256 :=
  (merkelizeLoop keccak (data.length + 1) true data).head?.okOr .dataVectorIsEmpty

/-- The closure of `merkle_proof`'s `flat_map` on one chunk: its hash, and,
when the chunk holds the level's target, the other node pushed on the proof
and the hash made the next target. -/
def proofChunk (currentTarget : H256) (chunk : List H256) (state : List H256 × H256) :
    Except MerkleError (H256 × (List H256 × H256)) := do
  let left ← chunk.head?.okOr .leftElementIsNone
  let right := chunk[1]?.getD left
  let result := hashPair keccak left right
  let (proof, targetHash) := state
  if left = currentTarget then pure (result, proof ++ [right], result)
  else if right = currentTarget then pure (result, proof ++ [left], result)
  else pure (result, proof, targetHash)

/-- One level of `merkle_proof`: the chunks' hashes collected in order, the
closure's writes to the proof and the target threaded through. -/
def proofLevel (currentTarget : H256) :
    List (List H256) → List H256 × H256 → List H256 × (List H256 × H256)
  | [], state => ([], state)
  | chunk :: chunks, state =>
    match proofChunk keccak currentTarget chunk state with
    | .ok (result, state) =>
      let (results, state) := proofLevel currentTarget chunks state
      (result :: results, state)
    | .error _ => proofLevel currentTarget chunks state

/-- The `while` loop of `merkle_proof`, over the proof and the target. -/
def merkleProofLoop : Nat → Bool → List H256 → List H256 × H256 → List H256 × H256
  | 0, _, _, state => state
  | fuel + 1, first, data, state =>
    if data.length > 1 || first then
      let (data, newState) := proofLevel keccak state.2 (chunks2 data) state
      merkleProofLoop fuel false data newState
    else state

/-- `merkle_proof`: `None` for an element not in the list. -/
def merkleProof (data : List H256) (baseElement : H256) :
    Except MerkleError (Option (List H256)) :=
  if !data.contains baseElement then pure none
  else pure (some (merkleProofLoop keccak (data.length + 1) true data ([], baseElement)).1)

/-- The loop of `CommonBridge._verifyWithdrawProof`: the leaf hashed with
each proof element, on the left while the index is even, and the index
halved. -/
def verifyWithdrawProofLoop (withdrawalLeaf : H256) (withdrawalLogIndex : Nat) :
    List H256 → H256
  | [] => withdrawalLeaf
  | element :: withdrawalProof =>
    if withdrawalLogIndex % 2 = 0 then
      verifyWithdrawProofLoop (hashPair keccak withdrawalLeaf element) (withdrawalLogIndex / 2)
        withdrawalProof
    else
      verifyWithdrawProofLoop (hashPair keccak element withdrawalLeaf) (withdrawalLogIndex / 2)
        withdrawalProof

/-- `_verifyWithdrawProof`'s verdict against the root posted for the block. -/
def verifyWithdrawProof (withdrawalLeaf : H256) (withdrawalLogIndex : Nat)
    (withdrawalProof : List H256) (blockWithdrawalsLog : H256) : Bool :=
  verifyWithdrawProofLoop keccak withdrawalLeaf withdrawalLogIndex withdrawalProof == blockWithdrawalsLog

/-! ## `merkelize` is the level-by-level tree -/

theorem merkelizeLevel_eq_up (data : List H256) :
    merkelizeLevel keccak data = up (hashPair keccak) data := by
  induction data using pairs.induct with
  | case1 => rfl
  | case2 a => rfl
  | case3 a b rest ih =>
    unfold merkelizeLevel at ih ⊢
    rw [chunks2, List.filterMap_cons_some (f := fun chunk => (hashChunk keccak chunk).toOption)
      (show (hashChunk keccak [a, b]).toOption = some (hashPair keccak a b) from rfl), ih]
    rfl

theorem merkelizeLoop_eq_top :
    ∀ (fuel : Nat) (first : Bool) (data : List H256),
      merkelizeLoop keccak fuel first data = top (hashPair keccak) fuel first data := by
  intro fuel
  induction fuel with
  | zero => intro first data; rfl
  | succ fuel ih =>
    intro first data
    rw [merkelizeLoop, top, merkelizeLevel_eq_up, ih]

theorem merkelize_eq_top {data : List H256} (hne : data ≠ []) :
    ∃ root, merkelize keccak data = .ok root ∧
      top (hashPair keccak) (data.length + 1) true data = [root] := by
  have hpos : 0 < data.length := List.length_pos_iff.mpr hne
  obtain ⟨root, htop, -⟩ := fold_path (hashPair keccak) (data.length + 1) true data hpos
    (by rw [if_pos rfl]; omega)
  refine ⟨root, ?_, htop⟩
  rw [merkelize, merkelizeLoop_eq_top, htop]
  rfl

/-! ## `merkle_proof` is the index path -/

section Proof

variable {keccak}

theorem proofChunk_pair (target a b : H256) (proof : List H256) (t : H256) :
    proofChunk keccak target [a, b] (proof, t) =
      if a = target then .ok (hashPair keccak a b, proof ++ [b], hashPair keccak a b)
      else if b = target then .ok (hashPair keccak a b, proof ++ [a], hashPair keccak a b)
      else .ok (hashPair keccak a b, proof, t) := rfl

theorem proofChunk_single (target a : H256) (proof : List H256) (t : H256) :
    proofChunk keccak target [a] (proof, t) =
      if a = target then .ok (hashPair keccak a a, proof ++ [a], hashPair keccak a a)
      else if a = target then .ok (hashPair keccak a a, proof ++ [a], hashPair keccak a a)
      else .ok (hashPair keccak a a, proof, t) := rfl

theorem proofLevel_of_not_mem {target : H256} :
    ∀ (data : List H256) (proof : List H256) (t : H256), target ∉ data →
      proofLevel keccak target (chunks2 data) (proof, t) = (up (hashPair keccak) data, proof, t) := by
  intro data
  induction data using pairs.induct with
  | case1 => intro proof t _; rfl
  | case2 a =>
    intro proof t hnot
    have ha : a ≠ target := fun h => hnot (h ▸ List.mem_singleton_self a)
    rw [chunks2, proofLevel, proofChunk_single, if_neg ha, if_neg ha]
    rfl
  | case3 a b rest ih =>
    intro proof t hnot
    have ha : a ≠ target := fun h => hnot (h ▸ List.mem_cons_self)
    have hb : b ≠ target := fun h => hnot (h ▸ List.mem_cons_of_mem _ List.mem_cons_self)
    have hrest : target ∉ rest := fun h => hnot (List.mem_cons_of_mem _ (List.mem_cons_of_mem _ h))
    rw [chunks2, proofLevel, proofChunk_pair, if_neg ha, if_neg hb]
    dsimp only
    rw [ih proof t hrest]
    rfl

theorem proofLevel_of_getElem :
    ∀ (data : List H256) (i : Nat) (hi : i < data.length) (proof : List H256) (t : H256),
      data.Nodup →
      ∃ sib, sibling data i = some sib ∧
        proofLevel keccak data[i] (chunks2 data) (proof, t) =
          (up (hashPair keccak) data, (proof ++ [sib], (up (hashPair keccak) data)[i / 2]?.getD t)) := by
  intro data
  induction data using pairs.induct with
  | case1 => intro i hi; cases hi
  | case2 a =>
    intro i hi proof t _
    have hi0 : i = 0 := by simp at hi; omega
    subst hi0
    refine ⟨a, rfl, ?_⟩
    rw [List.getElem_singleton, chunks2, proofLevel, proofChunk_single, if_pos rfl]
    rfl
  | case3 a b rest ih =>
    intro i hi proof t hnd
    have hab : a ≠ b := fun h => (List.nodup_cons.mp hnd).1 (h ▸ List.mem_cons_self)
    have ha : a ∉ rest := fun h => (List.nodup_cons.mp hnd).1 (List.mem_cons_of_mem _ h)
    have hb : b ∉ rest := (List.nodup_cons.mp (List.nodup_cons.mp hnd).2).1
    have hrest : rest.Nodup := (List.nodup_cons.mp (List.nodup_cons.mp hnd).2).2
    -- the target sits in the first pair, or further on
    by_cases h0 : i = 0
    · subst h0
      refine ⟨b, rfl, ?_⟩
      rw [List.getElem_cons_zero, chunks2, proofLevel, proofChunk_pair, if_pos rfl]
      dsimp only
      rw [proofLevel_of_not_mem rest _ _ ha]
      rfl
    by_cases h1 : i = 1
    · subst h1
      refine ⟨a, rfl, ?_⟩
      rw [show (a :: b :: rest)[1] = b from rfl, chunks2, proofLevel, proofChunk_pair, if_neg hab,
        if_pos rfl]
      dsimp only
      rw [proofLevel_of_not_mem rest _ _ hb]
      rfl
    obtain ⟨i, rfl⟩ : ∃ j, i = j + 2 := ⟨i - 2, by omega⟩
    have hi' : i < rest.length := by simp at hi; omega
    have hx : (a :: b :: rest)[i + 2] = rest[i] := rfl
    have hxa : a ≠ rest[i] := fun h => ha (h ▸ List.getElem_mem hi')
    have hxb : b ≠ rest[i] := fun h => hb (h ▸ List.getElem_mem hi')
    obtain ⟨sib, hsib, hlevel⟩ := ih i hi' proof t hrest
    refine ⟨sib, ?_, ?_⟩
    · unfold sibling at hsib ⊢
      have hpar : (i + 2) % 2 = i % 2 := by omega
      rw [hpar]
      by_cases hev : i % 2 = 0
      · rw [if_pos hev] at hsib ⊢
        exact hsib
      · rw [if_neg hev] at hsib ⊢
        rw [show i + 2 - 1 = (i - 1) + 2 by omega]
        exact hsib
    · rw [hx, chunks2, proofLevel, proofChunk_pair, if_neg hxa, if_neg hxb]
      dsimp only
      rw [hlevel, show (i + 2) / 2 = i / 2 + 1 by omega]
      rfl

theorem merkleProofLoop_eq_path :
    ∀ (fuel : Nat) (first : Bool) (data : List H256) (i : Nat) (hi : i < data.length)
      (proof : List H256),
      data.Nodup → CollisionFree (hashPair keccak) data →
      (merkleProofLoop keccak fuel first data (proof, data[i])).1 =
        proof ++ path (hashPair keccak) fuel first data i := by
  intro fuel
  induction fuel with
  | zero => intro first data i hi proof _ _; rw [merkleProofLoop, path, List.append_nil]
  | succ fuel ih =>
    intro first data i hi proof hnd hcf
    by_cases hstep : data.length > 1 || first
    · obtain ⟨sib, hsib, hlevel⟩ := proofLevel_of_getElem data i hi proof data[i] hnd
      have hi' : i / 2 < (up (hashPair keccak) data).length := by rw [length_up]; omega
      have hnext : (up (hashPair keccak) data)[i / 2]?.getD data[i] =
          (up (hashPair keccak) data)[i / 2] := by
        rw [List.getElem?_eq_getElem hi']
        rfl
      rw [merkleProofLoop, if_pos hstep]
      dsimp only
      rw [hlevel]
      dsimp only
      rw [hnext, ih false _ (i / 2) hi' (proof ++ [sib]) (nodup_up hnd hcf) hcf.up, path,
        if_pos hstep, hsib, Option.toList_some, List.append_assoc]
    · rw [merkleProofLoop, if_neg hstep, path, if_neg hstep, List.append_nil]

end Proof

/-- `merkle_proof` of a listed element is the index path of its position. -/
theorem merkleProof_eq_path {data : List H256} (hnd : data.Nodup)
    (hcf : CollisionFree (hashPair keccak) data) {i : Nat} (hi : i < data.length) :
    merkleProof keccak data data[i] =
      .ok (some (path (hashPair keccak) (data.length + 1) true data i)) := by
  have hmem : data.contains data[i] = true := List.contains_iff_mem.mpr (List.getElem_mem hi)
  rw [merkleProof, hmem, Bool.not_true, if_neg Bool.false_ne_true,
    merkleProofLoop_eq_path _ _ _ _ hi _ hnd hcf, List.nil_append]
  rfl

theorem verifyWithdrawProofLoop_eq_fold :
    ∀ (proof : List H256) (leaf : H256) (index : Nat),
      verifyWithdrawProofLoop keccak leaf index proof = fold (hashPair keccak) leaf index proof := by
  intro proof
  induction proof with
  | nil => intro leaf index; rfl
  | cons element proof ih =>
    intro leaf index
    rw [verifyWithdrawProofLoop, fold]
    split
    · exact ih _ _
    · exact ih _ _

/-- The withdrawals root and its proofs: `merkelize` answers every non-empty
list and `merkle_proof` every list, and for distinct withdrawal hashes,
under a Keccak that tells apart the pairs of each level, the contract folds
each hash with its proof and its position to the posted root. -/
theorem withdrawal_proofs_verify :
    (∀ data : List H256, data ≠ [] → ∃ root, merkelize keccak data = .ok root) ∧
    (∀ (data : List H256) (element : H256), ∃ proof, merkleProof keccak data element = .ok proof) ∧
    (∀ data : List H256, data.Nodup → CollisionFree (hashPair keccak) data →
      ∀ i (hi : i < data.length), ∃ root proof, merkelize keccak data = .ok root ∧
        merkleProof keccak data data[i] = .ok (some proof) ∧
        verifyWithdrawProof keccak data[i] i proof root = true) := by
  refine ⟨fun data hne => ?_, fun data element => ?_, fun data hnd hcf i hi => ?_⟩
  · obtain ⟨root, hroot, -⟩ := merkelize_eq_top keccak hne
    exact ⟨root, hroot⟩
  · unfold merkleProof
    split
    · exact ⟨none, rfl⟩
    · exact ⟨_, rfl⟩
  · have hne : data ≠ [] := List.ne_nil_of_length_pos (by omega)
    obtain ⟨root, hroot, htop⟩ := merkelize_eq_top keccak hne
    obtain ⟨root', htop', hfold⟩ := fold_path (hashPair keccak) (data.length + 1) true data
      (by omega) (by rw [if_pos rfl]; omega)
    have hsame : root' = root := by
      rw [htop] at htop'
      exact (List.singleton_inj.mp htop').symm
    refine ⟨root, _, hroot, merkleProof_eq_path keccak hnd hcf hi, ?_⟩
    rw [verifyWithdrawProof, verifyWithdrawProofLoop_eq_fold, hfold i hi, hsame, beq_self_eq_true]

/-- Three withdrawal hashes: the last one is paired with itself. -/
def threeWithdrawals : List H256 := [.replicate 32 1, .replicate 32 2, .replicate 32 3]

theorem threeWithdrawals_pairs_hash_apart : ∀ p ∈ pairs threeWithdrawals, ∀ q ∈ pairs threeWithdrawals,
    hashPair firstBytes32 p.1 p.2 = hashPair firstBytes32 q.1 q.2 → p = q := by
  -- by cases on the two pairs: a decision over all pairs of hashes would
  -- enumerate the type where a `Fintype` instance is in scope
  have hpairs : pairs threeWithdrawals =
      [(.replicate 32 1, .replicate 32 2), (.replicate 32 3, .replicate 32 3)] := rfl
  rw [hpairs]
  intro p hp q hq heq
  simp only [List.mem_cons, List.not_mem_nil, or_false] at hp hq
  rcases hp with rfl | rfl <;> rcases hq with rfl | rfl
  · rfl
  · exact absurd heq (by decide)
  · exact absurd heq (by decide)
  · rfl

theorem withdrawal_proofs_verify_last_of_three :
    ∃ root proof, merkelize firstBytes32 threeWithdrawals = .ok root ∧
      merkleProof firstBytes32 threeWithdrawals (.replicate 32 3) = .ok (some proof) ∧
      verifyWithdrawProof firstBytes32 (.replicate 32 3) 2 proof root = true := by
  have hcf : CollisionFree (hashPair firstBytes32) threeWithdrawals :=
    collisionFree_of_pairs threeWithdrawals_pairs_hash_apart
      (collisionFree_of_length_le_two (by rw [length_up]; rfl))
  exact (withdrawal_proofs_verify firstBytes32).2.2 threeWithdrawals (by decide) hcf 2 (by decide)

end Ethrex.L2
