/-
# `Ethrex.P2p.RoutingTable` — what the routing table keeps over any sequence of calls

The table of `kademlia.rs` is changed by six calls: `insert_node`,
`replace_peer`, the three writes through `get_by_node_id_mut`
(`pong_answered`, `update_peer_ping`, `update_peer_ping_with_revalidation`)
and `set_channels`.  `run` applies any sequence of them, with any node ids,
to `KademliaTable::new(local)`.

Each call computes one bucket's index and changes that bucket only.  The
functions disagree on how they compute it: `insert_node` and
`get_by_node_id` take `bucket_number(id, local)`, `replace_peer` and
`set_channels` take `bucket_number(local, id)`; the distance is the XOR of
the two hashes, so the two agree (`bucketNumber_comm`), and it is below
256 (`bucketNumber_lt`), so no index falls outside the table.  Duplicates
are checked in one bucket only, and that suffices because an id can only
be in the bucket it names.

## What is proved

| | |
| :-- | :-- |
| `Bucket.Inv` | a bucket's ids name its index, it has at most 16 peers and 10 replacements, and no id twice |
| `Bucket.Inv.of_subperm` | a bucket holding some of the old ids keeps it: `replace_peer` and every write to a peer |
| `KademliaTable.Inv.apply` | every call keeps every bucket's invariant |
| `replacements_stamped` | each bucket lists its replacements in the order `insert_node` added them |
| `routing_table_invariant` | over every run: bucket indices, sizes and distinct ids hold, `get_by_node_id` finds each stored peer, `replace_peer` promotes the newest replacement |

The last two make "the most recently added replacement" precise: call `k`
of the run added `r` when that `insert_node` answered `(Some(r), false)`,
and the replacement `replace_peer` pops was added after every addition of
any replacement it leaves.
-/
import Ethrex.P2p.Kademlia
import Ethrex.Levm.ArithmeticCorrect
import Ethrex.Lib.Buckets
import Ethrex.Lib.Recency

namespace Ethrex.P2p

open Ethrex.Rlp

/-! ## Bucket numbers -/

theorem bucketNumber_comm (keccak : Bytes → H256) (a b : FixedBytes 64) :
    bucketNumber keccak a b = bucketNumber keccak b a := by
  dsimp only [bucketNumber]
  rw [List.zipWith_comm]
  simp only [UInt8.xor_comm]

theorem bucketNumber_lt (keccak : Bytes → H256) (a b : FixedBytes 64) :
    bucketNumber keccak a b < numberOfBuckets := by
  dsimp only [bucketNumber, numberOfBuckets]
  have := Levm.bits_le (BitVec.ofNat 256 (BigEndian.ofBytes
    (List.zipWith (· ^^^ ·) (keccak a.toList).toList (keccak b.toList).toList)))
  omega

/-! ## Buckets -/

namespace Bucket

/-- The ids a bucket holds: its peers', then its replacements'. -/
def ids (bucket : Bucket) : List (FixedBytes 64) :=
  (bucket.peers ++ bucket.replacements).map (·.node.nodeId)

theorem mem_ids_of_mem {bucket : Bucket} {p : PeerData} (h : p ∈ bucket.peers ++ bucket.replacements) :
    p.node.nodeId ∈ bucket.ids :=
  List.mem_map_of_mem h

theorem any_nodeId_iff (l : List PeerData) (nodeId : FixedBytes 64) :
    l.any (·.node.nodeId == nodeId) = true ↔ nodeId ∈ l.map (·.node.nodeId) := by
  simp [List.any_eq_true]

theorem map_nodeId_modify (l : List PeerData) (idx : Nat) {f : PeerData → PeerData}
    (hf : ∀ p, (f p).node = p.node) : (l.modify idx f).map (·.node.nodeId) = l.map (·.node.nodeId) := by
  apply List.ext_getElem?
  intro j
  rw [List.getElem?_map, List.getElem?_map, List.getElem?_modify]
  cases l[j]? with
  | none => rfl
  | some p =>
    show some (if idx = j then f p else p).node.nodeId = some p.node.nodeId
    split <;> simp [hf]

section Write

variable (bucket : Bucket) (nodeId : FixedBytes 64) {f : PeerData → PeerData}

theorem ids_modifyPeer (hf : ∀ p, (f p).node = p.node) : (bucket.modifyPeer nodeId f).ids = bucket.ids := by
  unfold modifyPeer ids
  split
  · rw [List.map_append, List.map_append, map_nodeId_modify _ _ hf]
  · rfl

theorem length_peers_modifyPeer : (bucket.modifyPeer nodeId f).peers.length = bucket.peers.length := by
  unfold modifyPeer
  split
  · exact List.length_modify ..
  · rfl

theorem replacements_modifyPeer : (bucket.modifyPeer nodeId f).replacements = bucket.replacements := by
  unfold modifyPeer
  split <;> rfl

end Write

variable (keccak : Bytes → H256) (localNodeId : FixedBytes 64)

/-- What every bucket keeps: each id it holds names its index, it has at
most sixteen peers and ten replacements, and it holds no id twice. -/
structure Inv (i : Nat) (bucket : Bucket) : Prop where
  index : ∀ x ∈ bucket.ids, bucketNumber keccak x localNodeId = i
  peers_le : bucket.peers.length ≤ maxNodesPerBucket
  replacements_le : bucket.replacements.length ≤ maxNumberOfReplacements
  nodup : bucket.ids.Nodup

variable {keccak localNodeId} {i : Nat} {bucket bucket' : Bucket}

theorem inv_empty (i : Nat) : Inv keccak localNodeId i ⟨[], []⟩ where
  index _ h := absurd h List.not_mem_nil
  peers_le := Nat.zero_le _
  replacements_le := Nat.zero_le _
  nodup := List.nodup_nil

theorem Inv.of_subperm (h : Inv keccak localNodeId i bucket) (hids : bucket'.ids.Subperm bucket.ids)
    (hpeers : bucket'.peers.length ≤ maxNodesPerBucket)
    (hreplacements : bucket'.replacements.length ≤ maxNumberOfReplacements) :
    Inv keccak localNodeId i bucket' where
  index x hx := h.index x (hids.subset hx)
  peers_le := hpeers
  replacements_le := hreplacements
  nodup := Buckets.nodup_of_subperm hids h.nodup

theorem Inv.of_subperm_concat {x : FixedBytes 64} (h : Inv keccak localNodeId i bucket)
    (hids : bucket'.ids.Subperm (bucket.ids ++ [x])) (hx : x ∉ bucket.ids)
    (hindex : bucketNumber keccak x localNodeId = i)
    (hpeers : bucket'.peers.length ≤ maxNodesPerBucket)
    (hreplacements : bucket'.replacements.length ≤ maxNumberOfReplacements) :
    Inv keccak localNodeId i bucket' where
  index y hy := by
    rcases List.mem_append.mp (hids.subset hy) with hy | hy
    · exact h.index y hy
    · rw [List.mem_singleton.mp hy, hindex]
  peers_le := hpeers
  replacements_le := hreplacements
  nodup := by
    refine Buckets.nodup_of_subperm hids (List.nodup_append.mpr ⟨h.nodup, List.nodup_singleton x, ?_⟩)
    intro y hy z hz hyz
    rw [List.mem_singleton.mp hz] at hyz
    exact hx (hyz ▸ hy)

theorem Inv.modifyPeer (h : Inv keccak localNodeId i bucket) (nodeId : FixedBytes 64)
    {f : PeerData → PeerData} (hf : ∀ p, (f p).node = p.node) :
    Inv keccak localNodeId i (bucket.modifyPeer nodeId f) :=
  h.of_subperm (by rw [ids_modifyPeer _ _ hf]) (by rw [length_peers_modifyPeer]; exact h.peers_le)
    (by rw [replacements_modifyPeer]; exact h.replacements_le)

end Bucket

/-! ## Tables -/

namespace KademliaTable

section Write

variable (self : KademliaTable) (i : Nat) (f : Bucket → Bucket)

@[simp] theorem localNodeId_modifyBucket : (self.modifyBucket i f).localNodeId = self.localNodeId := rfl

@[simp] theorem length_modifyBucket : (self.modifyBucket i f).buckets.length = self.buckets.length :=
  List.length_modify ..

theorem bucket_modifyBucket_self (h : i < self.buckets.length) :
    (self.modifyBucket i f).bucket i = f (self.bucket i) :=
  Buckets.getD_modify_self _ _ _ h

theorem bucket_modifyBucket_of_ne {j : Nat} (h : i ≠ j) : (self.modifyBucket i f).bucket j = self.bucket j :=
  Buckets.getD_modify_of_ne _ _ _ h

theorem modifyBucket_of_le (h : self.buckets.length ≤ i) : self.modifyBucket i f = self := by
  unfold modifyBucket
  rw [List.modify_eq_self h]

end Write

variable (keccak : Bytes → H256)

/-- What every table the calls build keeps: its 256 buckets, each with its
invariant. -/
structure Inv (table : KademliaTable) : Prop where
  length_buckets : table.buckets.length = numberOfBuckets
  bucket : ∀ i, Bucket.Inv keccak table.localNodeId i (table.bucket i)

@[simp] theorem bucket_new (localNodeId : FixedBytes 64) (i : Nat) :
    (KademliaTable.new localNodeId).bucket i = ⟨[], []⟩ := by
  unfold KademliaTable.new bucket
  rw [List.getD_eq_getElem?_getD, List.getElem?_replicate]
  split <;> rfl

theorem inv_new (localNodeId : FixedBytes 64) : (KademliaTable.new localNodeId).Inv keccak where
  length_buckets := List.length_replicate
  bucket i := by
    rw [bucket_new]
    exact Bucket.inv_empty i

variable {keccak} {self : KademliaTable}

theorem Inv.bucketNumber_lt (h : self.Inv keccak) (a b : FixedBytes 64) :
    bucketNumber keccak a b < self.buckets.length := by
  rw [h.length_buckets]
  exact P2p.bucketNumber_lt keccak a b

theorem Inv.modifyBucket (h : self.Inv keccak) {i : Nat} {f : Bucket → Bucket}
    (hf : Bucket.Inv keccak self.localNodeId i (self.bucket i) →
      Bucket.Inv keccak self.localNodeId i (f (self.bucket i))) :
    (self.modifyBucket i f).Inv keccak where
  length_buckets := by rw [length_modifyBucket, h.length_buckets]
  bucket j := by
    rw [localNodeId_modifyBucket]
    by_cases hij : i = j
    · subst hij
      by_cases hi : i < self.buckets.length
      · rw [bucket_modifyBucket_self _ _ _ hi]
        exact hf (h.bucket i)
      · rw [modifyBucket_of_le _ _ _ (Nat.le_of_not_lt hi)]
        exact h.bucket i
    · rw [bucket_modifyBucket_of_ne _ _ _ hij]
      exact h.bucket j

/-! ### `insert_node` -/

theorem insertNodeInner_cases (self : KademliaTable) (node : Node) (i : Nat) (now : UInt64) :
    (node.nodeId ∈ (self.bucket i).ids ∧ self.insertNodeInner node i now = ((none, false), self)) ∨
    (node.nodeId ∉ (self.bucket i).ids ∧ (self.bucket i).peers.length = maxNodesPerBucket ∧
      self.insertNodeInner node i now = ((some (PeerData.new node now 0 false), false),
        self.modifyBucket i fun bucket =>
          { bucket with replacements :=
              (if bucket.replacements.length ≥ maxNumberOfReplacements then bucket.replacements.drop 1
                else bucket.replacements) ++ [PeerData.new node now 0 false] })) ∨
    (node.nodeId ∉ (self.bucket i).ids ∧ (self.bucket i).peers.length ≠ maxNodesPerBucket ∧
      self.insertNodeInner node i now = ((some (PeerData.new node now 0 false), true),
        self.modifyBucket i fun bucket =>
          { peers := bucket.peers ++ [PeerData.new node now 0 false],
            replacements := bucket.replacements.filter (·.node.nodeId != node.nodeId) })) := by
  have hheld : node.nodeId ∈ (self.bucket i).ids ↔
      (self.bucket i).peers.any (·.node.nodeId == node.nodeId) = true ∨
        (self.bucket i).replacements.any (·.node.nodeId == node.nodeId) = true := by
    rw [Bucket.any_nodeId_iff, Bucket.any_nodeId_iff, Bucket.ids, List.map_append, List.mem_append]
  unfold insertNodeInner
  by_cases hp : (self.bucket i).peers.any (·.node.nodeId == node.nodeId) = true
  · exact .inl ⟨hheld.mpr (.inl hp), by simp only [hp, ↓reduceIte]⟩
  by_cases hr : (self.bucket i).replacements.any (·.node.nodeId == node.nodeId) = true
  · exact .inl ⟨hheld.mpr (.inr hr), by simp only [hp, hr, ↓reduceIte, Bool.false_eq_true]⟩
  have hnot : node.nodeId ∉ (self.bucket i).ids := fun h => (hheld.mp h).elim hp hr
  simp only [hp, hr, Bool.false_eq_true, ↓reduceIte]
  by_cases hfull : (self.bucket i).peers.length = maxNodesPerBucket
  · exact .inr (.inl ⟨hnot, hfull, by rw [if_pos hfull]; rfl⟩)
  · -- `remove_from_replacements`, then the push: two writes of the same bucket
    refine .inr (.inr ⟨hnot, hfull, ?_⟩)
    rw [if_neg hfull]
    simp only [removeFromReplacements, modifyBucket, List.modify_modify_eq]
    rfl

theorem keptReplacements_sublist (l : List PeerData) :
    (if l.length ≥ maxNumberOfReplacements then l.drop 1 else l).Sublist l := by
  split
  · exact List.drop_sublist _ _
  · exact List.Sublist.refl _

theorem length_keptReplacements_append_le {l : List PeerData} (hl : l.length ≤ maxNumberOfReplacements)
    (x : PeerData) :
    ((if l.length ≥ maxNumberOfReplacements then l.drop 1 else l) ++ [x]).length ≤
      maxNumberOfReplacements := by
  have hpos : 0 < maxNumberOfReplacements := by decide
  rw [List.length_append, List.length_singleton]
  split
  · rw [List.length_drop]
    omega
  · omega

theorem Inv.insertNode (h : self.Inv keccak) (node : Node) (now : UInt64) :
    (self.insertNode keccak node now).2.Inv keccak := by
  unfold KademliaTable.insertNode
  set i := bucketNumber keccak node.nodeId self.localNodeId with hi
  have hlt : i < self.buckets.length := h.bucketNumber_lt _ _
  rcases insertNodeInner_cases self node i now with ⟨-, heq⟩ | ⟨hnot, hfull, heq⟩ | ⟨hnot, hroom, heq⟩
  · rw [heq]
    exact h
  · rw [heq]
    refine h.modifyBucket fun hb => hb.of_subperm_concat ?_ hnot hi.symm hb.peers_le
      (length_keptReplacements_append_le hb.replacements_le _)
    -- the kept replacements are a sublist of the old ones
    apply List.Sublist.subperm
    simp only [Bucket.ids, List.map_append, ← List.append_assoc]
    exact List.Sublist.append_right (List.Sublist.append_left ((keptReplacements_sublist _).map _) _) _
  · rw [heq]
    refine h.modifyBucket fun hb => hb.of_subperm_concat ?_ hnot hi.symm ?_ ?_
    · -- the new peer moves behind the replacements, which lose nothing but its id
      simp only [Bucket.ids, List.map_append, List.map_singleton, PeerData.new, List.append_assoc]
      refine (List.perm_append_comm.append_left _).subperm.trans ?_
      exact (((List.filter_sublist.map _).append_right _).append_left _).subperm
    · -- a peer is pushed only below sixteen
      have := hb.peers_le
      simp only [List.length_append, List.length_singleton]
      omega
    · exact Nat.le_trans (List.length_filter_le _ _) hb.replacements_le

/-! ### `replace_peer` -/

theorem replacePeerInner_cases (self : KademliaTable) (nodeId : FixedBytes 64) (i : Nat) :
    ((self.bucket i).peers.findIdx? (·.node.nodeId == nodeId) = none ∧
      self.replacePeerInner nodeId i = (none, self)) ∨
    ∃ idx, (self.bucket i).peers.findIdx? (·.node.nodeId == nodeId) = some idx ∧
      (((self.bucket i).replacements = [] ∧
        self.replacePeerInner nodeId i =
          (none, self.modifyBucket i fun bucket => { bucket with peers := bucket.peers.eraseIdx idx })) ∨
      ∃ rs r, (self.bucket i).replacements = rs ++ [r] ∧
        self.replacePeerInner nodeId i =
          (some r, self.modifyBucket i fun bucket =>
            { peers := bucket.peers.set idx r, replacements := bucket.replacements.dropLast })) := by
  unfold replacePeerInner
  split
  · rename_i hnone
    exact .inl ⟨hnone, rfl⟩
  · rename_i idx hidx
    refine .inr ⟨idx, hidx, ?_⟩
    split
    · rename_i r hlast
      obtain ⟨rs, hrs⟩ := List.getLast?_eq_some_iff.mp hlast
      exact .inr ⟨rs, r, hrs, rfl⟩
    · rename_i hlast
      exact .inl ⟨List.getLast?_eq_none_iff.mp hlast, rfl⟩

theorem ids_set_subperm {bucket : Bucket} {idx : Nat} {rs : List PeerData} {r : PeerData}
    (hidx : idx < bucket.peers.length) (hrs : bucket.replacements = rs ++ [r]) :
    (Bucket.ids ⟨bucket.peers.set idx r, rs⟩).Subperm bucket.ids := by
  -- both are `r` in front of a list: the peers less the one at `idx`, or all the peers
  have hnew : (Bucket.ids ⟨bucket.peers.set idx r, rs⟩).Perm
      (r.node.nodeId :: (bucket.peers.eraseIdx idx ++ rs).map (·.node.nodeId)) :=
    ((Buckets.perm_set_cons_eraseIdx hidx r).append_right rs).map _
  have hold : bucket.ids.Perm (r.node.nodeId :: (bucket.peers ++ rs).map (·.node.nodeId)) := by
    simp only [Bucket.ids, hrs, ← List.append_assoc, List.map_append, List.map_singleton]
    exact List.perm_append_singleton _ _
  have herase : ((bucket.peers.eraseIdx idx ++ rs).map (·.node.nodeId)).Sublist
      ((bucket.peers ++ rs).map (·.node.nodeId)) :=
    ((List.eraseIdx_sublist _ _).append_right rs).map _
  exact hnew.subperm.trans ((herase.cons_cons _).subperm.trans hold.symm.subperm)

/-- `replace_peer` keeps the invariant: what it writes is a bucket with
fewer ids. -/
theorem Inv.replacePeer (h : self.Inv keccak) (nodeId : FixedBytes 64) :
    (self.replacePeer keccak nodeId).2.Inv keccak := by
  unfold KademliaTable.replacePeer
  rcases replacePeerInner_cases self nodeId (bucketNumber keccak self.localNodeId nodeId) with
    ⟨-, heq⟩ | ⟨idx, hidx, ⟨-, heq⟩ | ⟨rs, r, hrs, heq⟩⟩
  · rw [heq]
    exact h
  · rw [heq]
    refine h.modifyBucket fun hb => hb.of_subperm ?_ ?_ hb.replacements_le
    · simp only [Bucket.ids, List.map_append]
      exact ((List.eraseIdx_sublist _ _).map _ |>.append_right _).subperm
    · exact Nat.le_trans (List.length_eraseIdx_le _ _) hb.peers_le
  · rw [heq]
    have hlt := (List.findIdx?_eq_some_iff_getElem.mp hidx).1
    refine h.modifyBucket fun hb => hb.of_subperm ?_ ?_ ?_
    · simp only [hrs, List.dropLast_concat]
      exact ids_set_subperm hlt hrs
    · rw [List.length_set]
      exact hb.peers_le
    · have := hb.replacements_le
      rw [hrs, List.length_append] at this
      show (self.bucket _).replacements.dropLast.length ≤ _
      rw [hrs, List.dropLast_concat]
      omega

/-! ### The writes to a peer -/

theorem Inv.updateByNodeId (h : self.Inv keccak) (nodeId : FixedBytes 64) {f : PeerData → PeerData}
    (hf : ∀ p, (f p).node = p.node) : (self.updateByNodeId keccak nodeId f).Inv keccak :=
  h.modifyBucket fun hb => hb.modifyPeer nodeId hf

theorem setChannels_eq (self : KademliaTable) (nodeId : FixedBytes 64) (channels : PeerChannels) :
    self.setChannels keccak nodeId channels =
      self.updateByNodeId keccak nodeId fun peer => { peer with channels := some channels } := by
  rw [setChannels, updateByNodeId, bucketNumber_comm]

end KademliaTable

/-! ## Runs -/

/-- The calls that change the table. -/
inductive Call where
  | insertNode (node : Node) (now : UInt64)
  | replacePeer (nodeId : FixedBytes 64)
  | pongAnswered (nodeId : FixedBytes 64) (now : UInt64)
  | updatePeerPing (nodeId : FixedBytes 64) (pingHash : Option H256) (now : UInt64)
  | updatePeerPingWithRevalidation (nodeId : FixedBytes 64) (pingHash : Option H256) (now : UInt64)
  | setChannels (nodeId : FixedBytes 64) (channels : PeerChannels)

/-- A call on the table; what it returns is dropped. -/
def Call.apply (keccak : Bytes → H256) (self : KademliaTable) : Call → KademliaTable
  | .insertNode node now => (self.insertNode keccak node now).2
  | .replacePeer nodeId => (self.replacePeer keccak nodeId).2
  | .pongAnswered nodeId now => self.pongAnswered keccak nodeId now
  | .updatePeerPing nodeId pingHash now => self.updatePeerPing keccak nodeId pingHash now
  | .updatePeerPingWithRevalidation nodeId pingHash now =>
    self.updatePeerPingWithRevalidation keccak nodeId pingHash now
  | .setChannels nodeId channels => self.setChannels keccak nodeId channels

/-- The calls, in order, on `KademliaTable::new(local)`. -/
def run (keccak : Bytes → H256) (localNodeId : FixedBytes 64) (calls : List Call) : KademliaTable :=
  calls.foldl (Call.apply keccak) (KademliaTable.new localNodeId)

section Run

variable {keccak : Bytes → H256} {localNodeId : FixedBytes 64}

theorem run_append (calls : List Call) (call : Call) :
    run keccak localNodeId (calls ++ [call]) = call.apply keccak (run keccak localNodeId calls) := by
  rw [run, List.foldl_append, List.foldl_cons, List.foldl_nil]
  rfl

theorem KademliaTable.Inv.apply {self : KademliaTable} (h : self.Inv keccak) (call : Call) :
    (call.apply keccak self).Inv keccak := by
  cases call with
  | insertNode node now => exact h.insertNode node now
  | replacePeer nodeId => exact h.replacePeer nodeId
  | pongAnswered nodeId now => exact h.updateByNodeId nodeId fun _ => rfl
  | updatePeerPing nodeId pingHash now => exact h.updateByNodeId nodeId fun _ => rfl
  | updatePeerPingWithRevalidation nodeId pingHash now => exact h.updateByNodeId nodeId fun _ => rfl
  | setChannels nodeId channels =>
    show (self.setChannels keccak nodeId channels).Inv keccak
    rw [KademliaTable.setChannels_eq]
    exact h.updateByNodeId nodeId fun _ => rfl

theorem localNodeId_apply (self : KademliaTable) (call : Call) :
    (call.apply keccak self).localNodeId = self.localNodeId := by
  cases call with
  | insertNode node now =>
    show (self.insertNode keccak node now).2.localNodeId = _
    rcases KademliaTable.insertNodeInner_cases self node (bucketNumber keccak node.nodeId self.localNodeId)
      now with ⟨-, heq⟩ | ⟨-, -, heq⟩ | ⟨-, -, heq⟩ <;>
      rw [KademliaTable.insertNode, heq] <;> rfl
  | replacePeer nodeId =>
    show (self.replacePeer keccak nodeId).2.localNodeId = _
    rcases KademliaTable.replacePeerInner_cases self nodeId (bucketNumber keccak self.localNodeId nodeId)
      with ⟨-, heq⟩ | ⟨idx, -, ⟨-, heq⟩ | ⟨rs, r, -, heq⟩⟩ <;>
      rw [KademliaTable.replacePeer, heq] <;> rfl
  | pongAnswered | updatePeerPing | updatePeerPingWithRevalidation | setChannels => rfl

/-- Every table a run builds has the invariant, for the local id it was
created with: the run lemma, by induction on the calls from the last. -/
theorem run_inv (calls : List Call) :
    (run keccak localNodeId calls).Inv keccak ∧ (run keccak localNodeId calls).localNodeId = localNodeId := by
  induction calls using List.reverseRecOn with
  | nil => exact ⟨KademliaTable.inv_new keccak localNodeId, rfl⟩
  | append_singleton calls call ih =>
    rw [run_append]
    exact ⟨ih.1.apply call, (localNodeId_apply _ call).trans ih.2⟩

end Run

/-! ## What a table with the invariant answers -/

namespace KademliaTable

variable {keccak : Bytes → H256} {self : KademliaTable}

theorem Inv.index_of_mem (h : self.Inv keccak) {i : Nat} {p : PeerData}
    (hp : p ∈ (self.bucket i).peers ++ (self.bucket i).replacements) :
    bucketNumber keccak p.node.nodeId self.localNodeId = i :=
  (h.bucket i).index _ (Bucket.mem_ids_of_mem hp)

theorem mem_peers_iff (self : KademliaTable) (p : PeerData) :
    p ∈ self.peers ↔ ∃ i < self.buckets.length, p ∈ (self.bucket i).peers :=
  Buckets.mem_flatMap_iff_getD _ _ _ _

theorem Inv.mem_bucket_of_mem_peers (h : self.Inv keccak) {p : PeerData} (hp : p ∈ self.peers) :
    p ∈ (self.bucket (bucketNumber keccak p.node.nodeId self.localNodeId)).peers := by
  obtain ⟨i, -, hi⟩ := (mem_peers_iff self p).mp hp
  rw [h.index_of_mem (List.mem_append_left _ hi)]
  exact hi

/-- No id is held twice in the whole table: each bucket holds it at most
once, and only the bucket it names can hold it. -/
theorem Inv.nodup (h : self.Inv keccak) : (self.buckets.flatMap Bucket.ids).Nodup :=
  Buckets.nodup_flatMap_of_index (⟨[], []⟩ : Bucket) _ _ (fun x => bucketNumber keccak x self.localNodeId)
    (fun i _ x hx => (h.bucket i).index x hx) (fun i _ => (h.bucket i).nodup)

/-- `get_by_node_id` finds a peer exactly when the table has a peer with the
id, and what it finds is one. -/
theorem Inv.getByNodeId_isSome_iff (h : self.Inv keccak) (nodeId : FixedBytes 64) :
    (self.getByNodeId keccak nodeId).isSome ↔ ∃ p ∈ self.peers, p.node.nodeId = nodeId := by
  unfold getByNodeId
  rw [List.find?_isSome]
  constructor
  · rintro ⟨p, hp, hid⟩
    exact ⟨p, (mem_peers_iff self p).mpr ⟨_, h.bucketNumber_lt _ _, hp⟩, by simpa using hid⟩
  · rintro ⟨p, hp, rfl⟩
    exact ⟨p, h.mem_bucket_of_mem_peers hp, by simp⟩

theorem Inv.getByNodeId_eq_some (h : self.Inv keccak) {nodeId : FixedBytes 64} {p : PeerData}
    (hp : self.getByNodeId keccak nodeId = some p) : p ∈ self.peers ∧ p.node.nodeId = nodeId := by
  unfold getByNodeId at hp
  refine ⟨(mem_peers_iff self p).mpr ⟨_, h.bucketNumber_lt _ _, List.mem_of_find?_eq_some hp⟩, ?_⟩
  simpa using List.find?_some hp

/-- What `replace_peer` does for an id that is a peer: in the bucket the id
names, the peer at the first position with the id is replaced by the last
replacement, which leaves the replacements, or removed when there is none;
no other bucket changes. -/
theorem Inv.replacePeer_of_mem (h : self.Inv keccak) {nodeId : FixedBytes 64}
    (hpeer : ∃ p ∈ self.peers, p.node.nodeId = nodeId) :
    ∃ idx, ∃ hidx : idx < (self.bucket (bucketNumber keccak nodeId self.localNodeId)).peers.length,
      (self.bucket (bucketNumber keccak nodeId self.localNodeId)).peers[idx].node.nodeId = nodeId ∧
      (∀ j, j ≠ bucketNumber keccak nodeId self.localNodeId →
        (self.replacePeer keccak nodeId).2.bucket j = self.bucket j) ∧
      ((self.bucket (bucketNumber keccak nodeId self.localNodeId)).replacements = [] →
        (self.replacePeer keccak nodeId).1 = none ∧
        ((self.replacePeer keccak nodeId).2.bucket (bucketNumber keccak nodeId self.localNodeId)).peers =
          (self.bucket (bucketNumber keccak nodeId self.localNodeId)).peers.eraseIdx idx ∧
        ((self.replacePeer keccak nodeId).2.bucket
          (bucketNumber keccak nodeId self.localNodeId)).replacements = []) ∧
      (∀ rs r, (self.bucket (bucketNumber keccak nodeId self.localNodeId)).replacements = rs ++ [r] →
        (self.replacePeer keccak nodeId).1 = some r ∧
        ((self.replacePeer keccak nodeId).2.bucket (bucketNumber keccak nodeId self.localNodeId)).peers =
          (self.bucket (bucketNumber keccak nodeId self.localNodeId)).peers.set idx r ∧
        ((self.replacePeer keccak nodeId).2.bucket
          (bucketNumber keccak nodeId self.localNodeId)).replacements = rs) := by
  set i := bucketNumber keccak nodeId self.localNodeId with hi
  have hlt : i < self.buckets.length := h.bucketNumber_lt _ _
  have hsome : ((self.bucket i).peers.findIdx? (·.node.nodeId == nodeId)).isSome := by
    rw [List.findIdx?_isSome, List.any_eq_true]
    obtain ⟨p, hp, rfl⟩ := hpeer
    exact ⟨p, h.mem_bucket_of_mem_peers hp, by simp⟩
  unfold KademliaTable.replacePeer
  rw [← bucketNumber_comm, ← hi]
  rcases replacePeerInner_cases self nodeId i with ⟨hnone, -⟩ | ⟨idx, hidx, hcases⟩
  · rw [hnone] at hsome
    cases hsome
  obtain ⟨hidxlt, hid, -⟩ := List.findIdx?_eq_some_iff_getElem.mp hidx
  refine ⟨idx, hidxlt, by simpa using hid, fun j hj => ?_, fun hempty => ?_, fun rs r hrs => ?_⟩
  · -- the one bucket written is `i`
    rcases hcases with ⟨-, heq⟩ | ⟨rs, r, -, heq⟩ <;>
      rw [heq] <;> exact bucket_modifyBucket_of_ne _ _ _ (Ne.symm hj)
  · rcases hcases with ⟨-, heq⟩ | ⟨rs, r, hrs, -⟩
    · rw [heq, bucket_modifyBucket_self _ _ _ hlt]
      exact ⟨rfl, rfl, hempty⟩
    · rw [hempty] at hrs
      exact absurd hrs.symm (List.append_ne_nil_of_right_ne_nil rs (List.cons_ne_nil r []))
  · rcases hcases with ⟨hempty, -⟩ | ⟨rs', r', hrs', heq⟩
    · rw [hempty] at hrs
      exact absurd hrs (List.append_ne_nil_of_right_ne_nil rs (List.cons_ne_nil r [])).symm
    · obtain ⟨rfl, hr⟩ := List.append_inj' (hrs'.symm.trans hrs) rfl
      obtain rfl := List.singleton_inj.mp hr
      rw [heq, bucket_modifyBucket_self _ _ _ hlt]
      refine ⟨rfl, rfl, ?_⟩
      show (self.bucket i).replacements.dropLast = rs'
      rw [hrs', List.dropLast_concat]

/-- `replace_peer` on an id that is a peer leaves no peer with the id: it
was in one place, the bucket it names, and the replacement put there has
another id. -/
theorem Inv.replacePeer_removes (h : self.Inv keccak) {nodeId : FixedBytes 64}
    (hpeer : ∃ p ∈ self.peers, p.node.nodeId = nodeId) :
    ∀ p ∈ (self.replacePeer keccak nodeId).2.peers, p.node.nodeId ≠ nodeId := by
  obtain ⟨idx, hidx, hid, hframe, hempty, hlast⟩ := h.replacePeer_of_mem hpeer
  set i := bucketNumber keccak nodeId self.localNodeId with hi
  have hids := (h.bucket i).nodup
  rw [Bucket.ids, List.map_append] at hids
  have hnd := (List.nodup_append.mp hids).1
  intro p hp hpid
  obtain ⟨j, -, hpj⟩ := (mem_peers_iff _ p).mp hp
  by_cases hji : j = i
  · rw [hji] at hpj
    -- the id's one position in its bucket is erased or overwritten
    have hmem : ∀ l : List PeerData, p ∈ l →
        (self.bucket i).peers[idx].node.nodeId ∈ l.map (·.node.nodeId) := fun l hl => by
      rw [hid, ← hpid]
      exact List.mem_map_of_mem hl
    rcases List.eq_nil_or_concat (self.bucket i).replacements with hnil | ⟨rs, r, hrs⟩
    · rw [(hempty hnil).2.1] at hpj
      exact Buckets.not_mem_map_eraseIdx hnd hidx (hmem _ hpj)
    · rw [List.concat_eq_append] at hrs
      rw [(hlast rs r hrs).2.1] at hpj
      have hr : r.node.nodeId ≠ (self.bucket i).peers[idx].node.nodeId := by
        refine fun heq => (List.nodup_append.mp hids).2.2 _ (List.mem_map_of_mem (List.getElem_mem hidx))
          r.node.nodeId ?_ heq.symm
        rw [hrs]
        exact List.mem_map_of_mem (List.mem_append_right _ (List.mem_singleton_self r))
      exact Buckets.not_mem_map_set hnd hidx hr (hmem _ hpj)
  · -- any other bucket is unchanged and cannot hold the id
    rw [hframe j hji] at hpj
    have hindex := h.index_of_mem (List.mem_append_left _ hpj)
    rw [hpid] at hindex
    exact hji hindex.symm

end KademliaTable

/-! ## The order of the replacements -/

/-- A call on `self` that puts `r` into a bucket's replacements: an
`insert_node` that answers `(Some(r), false)`. -/
def Call.Adds (keccak : Bytes → H256) (self : KademliaTable) (call : Call) (r : PeerData) : Prop :=
  ∃ node now, call = .insertNode node now ∧ (self.insertNode keccak node now).1 = (some r, false)

/-- Call `k` of a run put `r` into a bucket's replacements. -/
def AddedAsReplacement (keccak : Bytes → H256) (localNodeId : FixedBytes 64) (calls : List Call)
    (k : Nat) (r : PeerData) : Prop :=
  ∃ call, calls[k]? = some call ∧ call.Adds keccak (run keccak localNodeId (calls.take k)) r

namespace KademliaTable

variable {keccak : Bytes → H256} {self : KademliaTable}

theorem replacements_modifyBucket_sublist (self : KademliaTable) (i : Nat) {f : Bucket → Bucket}
    (hf : ∀ b, (f b).replacements.Sublist b.replacements) (j : Nat) :
    ((self.modifyBucket i f).bucket j).replacements.Sublist (self.bucket j).replacements := by
  by_cases hij : i = j
  · subst hij
    by_cases hi : i < self.buckets.length
    · rw [bucket_modifyBucket_self _ _ _ hi]
      exact hf _
    · rw [modifyBucket_of_le _ _ _ (Nat.le_of_not_lt hi)]
  · rw [bucket_modifyBucket_of_ne _ _ _ hij]

theorem replacements_sublist_apply (self : KademliaTable) (call : Call)
    (hno : ∀ r, ¬ call.Adds keccak self r) (j : Nat) :
    ((call.apply keccak self).bucket j).replacements.Sublist (self.bucket j).replacements := by
  cases call with
  | insertNode node now =>
    show ((self.insertNode keccak node now).2.bucket j).replacements.Sublist _
    rcases insertNodeInner_cases self node (bucketNumber keccak node.nodeId self.localNodeId) now with
      ⟨-, heq⟩ | ⟨-, -, heq⟩ | ⟨-, -, heq⟩
    · rw [insertNode, heq]
    · exact absurd ⟨node, now, rfl, by rw [insertNode, heq]⟩ (hno _)
    · rw [insertNode, heq]
      exact replacements_modifyBucket_sublist _ _ (fun _ => List.filter_sublist) j
  | replacePeer nodeId =>
    show ((self.replacePeer keccak nodeId).2.bucket j).replacements.Sublist _
    rcases replacePeerInner_cases self nodeId (bucketNumber keccak self.localNodeId nodeId) with
      ⟨-, heq⟩ | ⟨idx, -, ⟨-, heq⟩ | ⟨rs, r, -, heq⟩⟩
    · rw [replacePeer, heq]
    · rw [replacePeer, heq]
      refine replacements_modifyBucket_sublist _ _ (fun b => ?_) j
      exact List.Sublist.refl b.replacements
    · rw [replacePeer, heq]
      exact replacements_modifyBucket_sublist _ _ (fun _ => List.dropLast_sublist _) j
  | pongAnswered | updatePeerPing | updatePeerPingWithRevalidation | setChannels =>
    exact replacements_modifyBucket_sublist _ _
      (fun b => by rw [Bucket.replacements_modifyPeer]) j

theorem Inv.stamped_apply (h : self.Inv keccak) (call : Call) {added : Nat → PeerData → Prop}
    {n : Nat} (hadded : ∀ r, added n r ↔ call.Adds keccak self r)
    (hstamped : ∀ j, Recency.Stamped added n (self.bucket j).replacements) (j : Nat) :
    Recency.Stamped added (n + 1) ((call.apply keccak self).bucket j).replacements := by
  by_cases hadds : ∃ r, call.Adds keccak self r
  · obtain ⟨r, node, now, rfl, hres⟩ := hadds
    set i := bucketNumber keccak node.nodeId self.localNodeId with hi
    rcases insertNodeInner_cases self node i now with ⟨-, heq⟩ | ⟨hnot, -, heq⟩ | ⟨-, -, heq⟩
    · rw [KademliaTable.insertNode, heq] at hres
      cases hres
    · rw [KademliaTable.insertNode, heq] at hres
      obtain rfl : PeerData.new node now 0 false = r := by cases hres; rfl
      -- whatever step `n` adds is the new peer
      have honly : ∀ b, added n b → b = PeerData.new node now 0 false := fun b hb => by
        obtain ⟨node', now', hcall, hres'⟩ := (hadded b).mp hb
        cases hcall
        rw [KademliaTable.insertNode, heq] at hres'
        cases hres'
        rfl
      show Recency.Stamped added (n + 1) (((self.insertNode keccak node now).2).bucket j).replacements
      rw [KademliaTable.insertNode, heq]
      by_cases hij : i = j
      · subst hij
        rw [bucket_modifyBucket_self _ _ _ (h.bucketNumber_lt _ _)]
        refine (hstamped i).append (keptReplacements_sublist _)
          ((hadded _).mpr ⟨node, now, rfl, by rw [KademliaTable.insertNode, heq]⟩) fun b hb hbn => ?_
        -- the new peer was not held, so no kept replacement is it
        obtain rfl := honly b hbn
        exact hnot (Bucket.mem_ids_of_mem (List.mem_append_right _ ((keptReplacements_sublist _).subset hb)))
      · rw [bucket_modifyBucket_of_ne _ _ _ hij]
        refine (hstamped j).sublist (List.Sublist.refl _) fun b hb hbn => hij ?_
        obtain rfl := honly b hbn
        exact h.index_of_mem (List.mem_append_right _ hb)
    · rw [KademliaTable.insertNode, heq] at hres
      cases hres
  · -- no replacement is added: every bucket keeps a sublist
    have hno : ∀ r, ¬ call.Adds keccak self r := fun r hr => hadds ⟨r, hr⟩
    exact (hstamped j).sublist (replacements_sublist_apply self call hno j)
      fun b _ hb => hno b ((hadded b).mp hb)

end KademliaTable

section Run

variable {keccak : Bytes → H256} {localNodeId : FixedBytes 64}

theorem addedAsReplacement_append_of_lt {calls : List Call} {call : Call} {k : Nat}
    (hk : k < calls.length) (r : PeerData) :
    AddedAsReplacement keccak localNodeId (calls ++ [call]) k r ↔
      AddedAsReplacement keccak localNodeId calls k r := by
  unfold AddedAsReplacement
  rw [List.getElem?_append_left hk, List.take_append_of_le_length hk.le]

theorem addedAsReplacement_append_length (calls : List Call) (call : Call) (r : PeerData) :
    AddedAsReplacement keccak localNodeId (calls ++ [call]) calls.length r ↔
      call.Adds keccak (run keccak localNodeId calls) r := by
  unfold AddedAsReplacement
  rw [List.getElem?_concat_length, List.take_left']
  · simp
  · rfl

/-- Every bucket of every run lists its replacements in the order the run
added them: the run lemma of `Inv.stamped_apply`. -/
theorem replacements_stamped (calls : List Call) :
    ∀ i, Recency.Stamped (AddedAsReplacement keccak localNodeId calls) calls.length
      ((run keccak localNodeId calls).bucket i).replacements := by
  induction calls using List.reverseRecOn with
  | nil =>
    intro i
    rw [run, List.foldl_nil, KademliaTable.bucket_new]
    exact Recency.stamped_nil _
  | append_singleton calls call ih =>
    intro i
    rw [run_append, List.length_append, List.length_singleton]
    refine (run_inv calls).1.stamped_apply call (addedAsReplacement_append_length calls call)
      (fun j => (ih j).congr fun k hk r => (addedAsReplacement_append_of_lt hk r).symm) i

end Run

/-! ## The routing table over any run -/

/-- What the routing table keeps, for a table `table` that `calls` built
from `KademliaTable::new(localNodeId)`. -/
structure RoutingTableSpec (keccak : Bytes → H256) (localNodeId : FixedBytes 64) (calls : List Call)
    (table : KademliaTable) : Prop where
  /-- every peer and replacement of bucket `i` has `bucket_number(id, local) = i` -/
  index : ∀ i, ∀ p ∈ (table.bucket i).peers ++ (table.bucket i).replacements,
    bucketNumber keccak p.node.nodeId localNodeId = i
  peers_le : ∀ i, (table.bucket i).peers.length ≤ maxNodesPerBucket
  replacements_le : ∀ i, (table.bucket i).replacements.length ≤ maxNumberOfReplacements
  /-- no id occurs twice among all the peers and replacements -/
  nodup : (table.buckets.flatMap Bucket.ids).Nodup
  getByNodeId_isSome : ∀ nodeId,
    (table.getByNodeId keccak nodeId).isSome ↔ ∃ p ∈ table.peers, p.node.nodeId = nodeId
  getByNodeId_peer : ∀ nodeId p, table.getByNodeId keccak nodeId = some p →
    p ∈ table.peers ∧ p.node.nodeId = nodeId
  /-- `replace_peer` on a peer's id leaves no peer with the id, and changes
  only the bucket the id names -/
  replacePeer_removes : ∀ nodeId, (∃ p ∈ table.peers, p.node.nodeId = nodeId) →
    (∀ p ∈ (table.replacePeer keccak nodeId).2.peers, p.node.nodeId ≠ nodeId) ∧
    ∀ j, j ≠ bucketNumber keccak nodeId localNodeId →
      (table.replacePeer keccak nodeId).2.bucket j = table.bucket j
  /-- with no replacement in the bucket, the peer is removed -/
  replacePeer_of_nil : ∀ nodeId, (∃ p ∈ table.peers, p.node.nodeId = nodeId) →
    (table.bucket (bucketNumber keccak nodeId localNodeId)).replacements = [] →
      (table.replacePeer keccak nodeId).1 = none ∧
      ∃ idx, (table.bucket (bucketNumber keccak nodeId localNodeId)).peers[idx]?.map (·.node.nodeId) =
          some nodeId ∧
        ((table.replacePeer keccak nodeId).2.bucket (bucketNumber keccak nodeId localNodeId)).peers =
          (table.bucket (bucketNumber keccak nodeId localNodeId)).peers.eraseIdx idx
  /-- otherwise the replacement added most recently takes its place -/
  replacePeer_newest : ∀ nodeId, (∃ p ∈ table.peers, p.node.nodeId = nodeId) →
    ∀ rs r, (table.bucket (bucketNumber keccak nodeId localNodeId)).replacements = rs ++ [r] →
      (table.replacePeer keccak nodeId).1 = some r ∧
      (∃ idx, (table.bucket (bucketNumber keccak nodeId localNodeId)).peers[idx]?.map (·.node.nodeId) =
          some nodeId ∧
        ((table.replacePeer keccak nodeId).2.bucket (bucketNumber keccak nodeId localNodeId)).peers =
          (table.bucket (bucketNumber keccak nodeId localNodeId)).peers.set idx r) ∧
      ((table.replacePeer keccak nodeId).2.bucket
        (bucketNumber keccak nodeId localNodeId)).replacements = rs ∧
      ∃ k < calls.length, AddedAsReplacement keccak localNodeId calls k r ∧
        ∀ r' ∈ rs, ∀ k' < calls.length, AddedAsReplacement keccak localNodeId calls k' r' → k' < k

/-- A table with the invariant whose replacements are stamped by the calls
has every property of the specification. -/
theorem RoutingTableSpec.of_inv {keccak : Bytes → H256} {calls : List Call} {table : KademliaTable}
    (h : table.Inv keccak)
    (hstamped : ∀ i, Recency.Stamped (AddedAsReplacement keccak table.localNodeId calls) calls.length
      (table.bucket i).replacements) :
    RoutingTableSpec keccak table.localNodeId calls table where
  index _ _ hp := h.index_of_mem hp
  peers_le i := (h.bucket i).peers_le
  replacements_le i := (h.bucket i).replacements_le
  nodup := h.nodup
  getByNodeId_isSome := h.getByNodeId_isSome_iff
  getByNodeId_peer _ _ hp := h.getByNodeId_eq_some hp
  replacePeer_removes _ hpeer := by
    obtain ⟨_, _, _, hframe, _⟩ := h.replacePeer_of_mem hpeer
    exact ⟨h.replacePeer_removes hpeer, hframe⟩
  replacePeer_of_nil _ hpeer hnil := by
    obtain ⟨idx, hidx, hid, -, hempty, -⟩ := h.replacePeer_of_mem hpeer
    obtain ⟨hfst, hpeers, -⟩ := hempty hnil
    exact ⟨hfst, idx, by rw [List.getElem?_eq_getElem hidx, Option.map_some, hid], hpeers⟩
  replacePeer_newest nodeId hpeer rs r hrs := by
    obtain ⟨idx, hidx, hid, -, -, hlast⟩ := h.replacePeer_of_mem hpeer
    obtain ⟨hfst, hpeers, hreplacements⟩ := hlast rs r hrs
    -- the popped replacement is the newest of the bucket's, by its stamps
    have hstamp := hstamped (bucketNumber keccak nodeId table.localNodeId)
    rw [hrs] at hstamp
    exact ⟨hfst, ⟨idx, by rw [List.getElem?_eq_getElem hidx, Option.map_some, hid], hpeers⟩,
      hreplacements, hstamp.last_newest⟩

theorem routing_table_invariant (keccak : Bytes → H256) (localNodeId : FixedBytes 64)
    (calls : List Call) : RoutingTableSpec keccak localNodeId calls (run keccak localNodeId calls) := by
  obtain ⟨h, hlocal⟩ : (run keccak localNodeId calls).Inv keccak ∧
      (run keccak localNodeId calls).localNodeId = localNodeId := run_inv calls
  have hspec := RoutingTableSpec.of_inv h (by rw [hlocal]; exact replacements_stamped calls)
  rwa [hlocal] at hspec

end Ethrex.P2p
