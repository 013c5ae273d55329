/-
# `Ethrex.P2p.Kademlia` — the routing table and its closest peers

`KademliaTable` (`kademlia.rs`) keeps 256 buckets of at most sixteen peers,
a peer going to the bucket of its `bucket_number` to the local node: the
index of the highest bit where the Keccak hashes of the two ids differ.
`insert_node` adds a peer to its bucket, or to the bucket's replacements
when the bucket is full; `replace_peer` puts the newest replacement in the
place of a peer that is dropped.

`get_closest_nodes` answers `FIND_NODE` and seeds a lookup.  It scans the
buckets in index order, keeps the first sixteen peers it meets with their
distance to the target, and from then on lets each new peer overwrite the
first kept one that is farther than it, and stops looking.  The kept one
it overwrites need not be the farthest (`peers_to_ask_push` looks for the
farthest), so a peer that was closer than some kept peer can be pushed out
by a closer one and lost: `getClosestNodes_of_scan`.  The scan is in bucket
order, which is distance to the local node and not to the target, so this
happens in tables `insert_node` builds (`sixteenFarPeers`).

Keccak is a parameter, and so is the clock: `now` stands for what
`time_now_unix` returns.  `PeerData` keeps every field a modelled function
writes; `find_node_request` and `liveness`, which only the discovery loop
changes, are left out.  The writes through `get_by_node_id_mut`
(`pong_answered`, `update_peer_ping`, `update_peer_ping_with_revalidation`)
are one definition, `updateByNodeId`, applied to each one's change of the
peer; `set_channels` computes its bucket the other way round and keeps its
own body.  What these calls keep, over any sequence of them, is
`Ethrex.P2p.RoutingTable`.
-/
import Ethrex.P2p.Discv4
import Ethrex.Levm.Arithmetic
import Ethrex.Lib.HashStandIn

namespace Ethrex.P2p

open Ethrex.Rlp

deriving instance DecidableEq for Node

/-- `MAX_NODES_PER_BUCKET`. -/
def maxNodesPerBucket : Nat := 16

/-- `NUMBER_OF_BUCKETS`. -/
def numberOfBuckets : Nat := 256

/-- `MAX_NUMBER_OF_REPLACEMENTS`. -/
def maxNumberOfReplacements : Nat := 10

/-- `PeerChannels`: the two ends of a peer's connection, each by the
identity of its channel; what goes through them is not modelled. -/
structure PeerChannels where
  sender : Nat
  receiver : Nat
  deriving DecidableEq

/-- `PeerData`, without `find_node_request` and `liveness`. -/
structure PeerData where
  node : Node
  lastPing : UInt64
  lastPong : UInt64
  lastPingHash : Option H256
  isProven : Bool
  revalidation : Option Bool
  channels : Option PeerChannels
  deriving DecidableEq

/-- `PeerData::new`. -/
def PeerData.new (record : Node) (lastPing lastPong : UInt64) (isProven : Bool) : PeerData :=
  { node := record, lastPing, lastPong, lastPingHash := none, isProven, revalidation := none,
    channels := none }

/-- `Bucket`. -/
structure Bucket where
  peers : List PeerData
  replacements : List PeerData
  deriving DecidableEq

/-- A write through `iter_mut().find(..)` on a bucket's peers: the first
peer with the id is changed by `f`, and nothing when there is none. -/
def Bucket.modifyPeer (bucket : Bucket) (nodeId : FixedBytes 64) (f : PeerData → PeerData) :
    Bucket :=
  match bucket.peers.findIdx? (·.node.nodeId == nodeId) with
  | some idx => { bucket with peers := bucket.peers.modify idx f }
  | none => bucket

/-- `KademliaTable`. -/
structure KademliaTable where
  localNodeId : FixedBytes 64
  buckets : List Bucket

/-- `KademliaTable::new`: every bucket empty. -/
def KademliaTable.new (localNodeId : FixedBytes 64) : KademliaTable :=
  ⟨localNodeId, List.replicate numberOfBuckets ⟨[], []⟩⟩

/-- `bucket_number`: the number of bits of the XOR of the two ids' hashes,
less one, saturating at zero. -/
def bucketNumber (keccak : Bytes → H256) (nodeId1 nodeId2 : FixedBytes 64) : Nat :=
  let hash1 := keccak nodeId1.toList
  let hash2 := keccak nodeId2.toList
  let xor := List.zipWith (· ^^^ ·) hash1.toList hash2.toList
  let distance : U256 := BitVec.ofNat 256 (BigEndian.ofBytes xor)
  Levm.bits distance - 1

namespace KademliaTable

/-- `self.buckets[bucket_idx]`; every `bucket_number` is in range. -/
def bucket (self : KademliaTable) (bucketIdx : Nat) : Bucket :=
  self.buckets.getD bucketIdx ⟨[], []⟩

/-- The table with one bucket changed. -/
def modifyBucket (self : KademliaTable) (bucketIdx : Nat) (f : Bucket → Bucket) : KademliaTable :=
  { self with buckets := self.buckets.modify bucketIdx f }

/-- `insert_as_replacement`: with ten replacements held the oldest goes. -/
def insertAsReplacement (self : KademliaTable) (node : PeerData) (bucketIdx : Nat) : KademliaTable :=
  self.modifyBucket bucketIdx fun bucket =>
    let replacements :=
      if bucket.replacements.length ≥ maxNumberOfReplacements then bucket.replacements.drop 1
      else bucket.replacements
    { bucket with replacements := replacements ++ [node] }

/-- `remove_from_replacements`. -/
def removeFromReplacements (self : KademliaTable) (nodeId : FixedBytes 64) (bucketIdx : Nat) :
    KademliaTable :=
  self.modifyBucket bucketIdx fun bucket =>
    { bucket with replacements := bucket.replacements.filter (·.node.nodeId != nodeId) }

/-- `insert_node_inner`; `now` is what `time_now_unix` returns. -/
def insertNodeInner (self : KademliaTable) (node : Node) (bucketIdx : Nat) (now : UInt64) :
    (Option PeerData × Bool) × KademliaTable :=
  let nodeId := node.nodeId
  if (self.bucket bucketIdx).peers.any (·.node.nodeId == nodeId) then ((none, false), self)
  else if (self.bucket bucketIdx).replacements.any (·.node.nodeId == nodeId) then ((none, false), self)
  else
    let peer := PeerData.new node now 0 false
    if (self.bucket bucketIdx).peers.length = maxNodesPerBucket then
      ((some peer, false), self.insertAsReplacement peer bucketIdx)
    else
      let self := self.removeFromReplacements nodeId bucketIdx
      ((some peer, true), self.modifyBucket bucketIdx fun bucket => { bucket with peers := bucket.peers ++ [peer] })

/-- `insert_node`: the bucket is the peer's `bucket_number` to the local node. -/
def insertNode (keccak : Bytes → H256) (self : KademliaTable) (node : Node) (now : UInt64) :
    (Option PeerData × Bool) × KademliaTable :=
  self.insertNodeInner node (bucketNumber keccak node.nodeId self.localNodeId) now

/-- `replace_peer_inner`: the newest replacement takes the dropped peer's
place, or the peer is removed when there is none. -/
def replacePeerInner (self : KademliaTable) (nodeId : FixedBytes 64) (bucketIdx : Nat) :
    Option PeerData × KademliaTable :=
  match (self.bucket bucketIdx).peers.findIdx? (·.node.nodeId == nodeId) with
  | none => (none, self)
  | some idx =>
    match (self.bucket bucketIdx).replacements.getLast? with
    | some newPeer =>
      (some newPeer, self.modifyBucket bucketIdx fun bucket =>
        { peers := bucket.peers.set idx newPeer, replacements := bucket.replacements.dropLast })
    | none =>
      (none, self.modifyBucket bucketIdx fun bucket => { bucket with peers := bucket.peers.eraseIdx idx })

/-- `replace_peer`. -/
def replacePeer (keccak : Bytes → H256) (self : KademliaTable) (nodeId : FixedBytes 64) :
    Option PeerData × KademliaTable :=
  self.replacePeerInner nodeId (bucketNumber keccak self.localNodeId nodeId)

/-- `get_by_node_id`: the first peer with the id in the bucket of the id's
`bucket_number` to the local node. -/
def getByNodeId (keccak : Bytes → H256) (self : KademliaTable) (nodeId : FixedBytes 64) :
    Option PeerData :=
  (self.bucket (bucketNumber keccak nodeId self.localNodeId)).peers.find? (·.node.nodeId == nodeId)

/-- A write through `get_by_node_id_mut`: the peer `get_by_node_id` finds
is changed by `f`, and nothing when it finds none. -/
def updateByNodeId (keccak : Bytes → H256) (self : KademliaTable) (nodeId : FixedBytes 64)
    (f : PeerData → PeerData) : KademliaTable :=
  self.modifyBucket (bucketNumber keccak nodeId self.localNodeId) (·.modifyPeer nodeId f)

/-- `pong_answered`: the peer is proven, its pong is now and the ping it
answered is forgotten; a revalidation under way is marked answered
(`revalidation.and(Some(true))`). -/
def pongAnswered (keccak : Bytes → H256) (self : KademliaTable) (nodeId : FixedBytes 64)
    (now : UInt64) : KademliaTable :=
  self.updateByNodeId keccak nodeId fun peer =>
    { peer with isProven := true, lastPong := now, lastPingHash := none,
                revalidation := peer.revalidation.map fun _ => true }

/-- `update_peer_ping`. -/
def updatePeerPing (keccak : Bytes → H256) (self : KademliaTable) (nodeId : FixedBytes 64)
    (pingHash : Option H256) (now : UInt64) : KademliaTable :=
  self.updateByNodeId keccak nodeId fun peer => { peer with lastPingHash := pingHash, lastPing := now }

/-- `update_peer_ping_with_revalidation`. -/
def updatePeerPingWithRevalidation (keccak : Bytes → H256) (self : KademliaTable)
    (nodeId : FixedBytes 64) (pingHash : Option H256) (now : UInt64) : KademliaTable :=
  self.updateByNodeId keccak nodeId fun peer =>
    { peer with lastPingHash := pingHash, lastPing := now, revalidation := some false }

/-- `set_channels`: the bucket is `bucket_number(local, id)`, read with
`buckets.get_mut`, which finds none past the end. -/
def setChannels (keccak : Bytes → H256) (self : KademliaTable) (nodeId : FixedBytes 64)
    (channels : PeerChannels) : KademliaTable :=
  self.modifyBucket (bucketNumber keccak self.localNodeId nodeId)
    (·.modifyPeer nodeId fun peer => { peer with channels := some channels })

/-- One candidate overwrite of `get_closest_nodes` once sixteen are kept:
the first kept entry farther than the new one is overwritten, and the
scan of the kept entries stops there. -/
def replaceFirstFarther (entry : Node × Nat) : List (Node × Nat) → List (Node × Nat)
  | [] => []
  | (node, dis) :: rest =>
    if entry.2 < dis then entry :: rest else (node, dis) :: replaceFirstFarther entry rest

/-- The body of `get_closest_nodes`'s loop over the peers. -/
def closestNodesStep (keccak : Bytes → H256) (nodeId : FixedBytes 64) (nodes : List (Node × Nat))
    (peer : PeerData) : List (Node × Nat) :=
  let distance := bucketNumber keccak nodeId peer.node.nodeId
  if nodes.length < maxNodesPerBucket then nodes ++ [(peer.node, distance)]
  else replaceFirstFarther (peer.node, distance) nodes

/-- `get_closest_nodes`. -/
def getClosestNodes (keccak : Bytes → H256) (self : KademliaTable) (nodeId : FixedBytes 64) :
    List Node :=
  let nodes := self.buckets.foldl
    (fun nodes bucket => bucket.peers.foldl (closestNodesStep keccak nodeId) nodes) []
  nodes.map (·.1)

/-- The peers of every bucket in the order the scans visit them. -/
def peers (self : KademliaTable) : List PeerData := self.buckets.flatMap (·.peers)

/-! ## The scan of `get_closest_nodes` -/

section Scan

variable (keccak : Bytes → H256) (target : FixedBytes 64)

@[simp] theorem replaceFirstFarther_nil (entry : Node × Nat) : replaceFirstFarther entry [] = [] := rfl

theorem replaceFirstFarther_cons (entry : Node × Nat) (node : Node) (dis : Nat)
    (rest : List (Node × Nat)) :
    replaceFirstFarther entry ((node, dis) :: rest) =
      if entry.2 < dis then entry :: rest else (node, dis) :: replaceFirstFarther entry rest := rfl

@[simp] theorem length_replaceFirstFarther (entry : Node × Nat) (nodes : List (Node × Nat)) :
    (replaceFirstFarther entry nodes).length = nodes.length := by
  induction nodes with
  | nil => rfl
  | cons head rest ih =>
    obtain ⟨node, dis⟩ := head
    rw [replaceFirstFarther_cons]
    split
    · rfl
    · rw [List.length_cons, ih, List.length_cons]

theorem mem_replaceFirstFarther {entry x : Node × Nat} {nodes : List (Node × Nat)}
    (h : x ∈ replaceFirstFarther entry nodes) : x = entry ∨ x ∈ nodes := by
  induction nodes with
  | nil => cases h
  | cons head rest ih =>
    obtain ⟨node, dis⟩ := head
    rw [replaceFirstFarther_cons] at h
    split at h
    · rcases List.mem_cons.mp h with rfl | h
      · exact .inl rfl
      · exact .inr (List.mem_cons_of_mem _ h)
    · rcases List.mem_cons.mp h with rfl | h
      · exact .inr List.mem_cons_self
      · exact (ih h).imp_right (List.mem_cons_of_mem _)

theorem closestNodesStep_of_lt {nodes : List (Node × Nat)} (peer : PeerData)
    (h : nodes.length < maxNodesPerBucket) :
    closestNodesStep keccak target nodes peer =
      nodes ++ [(peer.node, bucketNumber keccak target peer.node.nodeId)] := by
  rw [closestNodesStep, if_pos h]

theorem closestNodesStep_of_first_farther {node : Node} {dis : Nat} {rest : List (Node × Nat)}
    (peer : PeerData) (hfull : rest.length + 1 = maxNodesPerBucket)
    (hcloser : bucketNumber keccak target peer.node.nodeId < dis) :
    closestNodesStep keccak target ((node, dis) :: rest) peer =
      (peer.node, bucketNumber keccak target peer.node.nodeId) :: rest := by
  have hnot : ¬ ((node, dis) :: rest).length < maxNodesPerBucket := by
    rw [List.length_cons]
    omega
  rw [closestNodesStep, if_neg hnot, replaceFirstFarther_cons, if_pos hcloser]

theorem length_closestNodesStep {nodes : List (Node × Nat)} (peer : PeerData)
    (h : nodes.length ≤ maxNodesPerBucket) :
    (closestNodesStep keccak target nodes peer).length = min (nodes.length + 1) maxNodesPerBucket := by
  unfold closestNodesStep
  split
  · rw [List.length_append, List.length_singleton]
    omega
  · rw [length_replaceFirstFarther]
    omega

theorem getClosestNodes_eq (self : KademliaTable) :
    self.getClosestNodes keccak target =
      (self.peers.foldl (closestNodesStep keccak target) []).map (·.1) := by
  rw [getClosestNodes, peers, List.foldl_flatMap]

theorem length_foldl_closestNodesStep (peers : List PeerData) :
    ∀ nodes : List (Node × Nat), nodes.length ≤ maxNodesPerBucket →
      (peers.foldl (closestNodesStep keccak target) nodes).length =
        min (nodes.length + peers.length) maxNodesPerBucket := by
  induction peers with
  | nil =>
    intro nodes h
    rw [List.foldl_nil, List.length_nil]
    omega
  | cons peer rest ih =>
    intro nodes h
    have hstep := length_closestNodesStep keccak target peer h
    rw [List.foldl_cons, ih _ (by omega), hstep, List.length_cons]
    omega

theorem mem_foldl_closestNodesStep (peers : List PeerData) :
    ∀ (nodes : List (Node × Nat)) (x : Node × Nat),
      x ∈ peers.foldl (closestNodesStep keccak target) nodes → x ∈ nodes ∨ ∃ p ∈ peers, p.node = x.1 := by
  induction peers with
  | nil =>
    intro nodes x h
    exact .inl h
  | cons peer rest ih =>
    intro nodes x h
    rcases ih _ x h with h | ⟨p, hp, hx⟩
    · -- kept by this step: already kept, or this peer
      have hpeer : x ∈ nodes ∨ x = (peer.node, bucketNumber keccak target peer.node.nodeId) := by
        unfold closestNodesStep at h
        split at h
        · exact List.mem_append.mp h |>.imp_right List.mem_singleton.mp
        · exact (mem_replaceFirstFarther h).symm
      rcases hpeer with h | rfl
      · exact .inl h
      · exact .inr ⟨peer, List.mem_cons_self, rfl⟩
    · exact .inr ⟨p, List.mem_cons_of_mem _ hp, hx⟩

theorem foldl_closestNodesStep_of_length_le (peers : List PeerData) :
    ∀ nodes : List (Node × Nat), nodes.length + peers.length ≤ maxNodesPerBucket →
      peers.foldl (closestNodesStep keccak target) nodes =
        nodes ++ peers.map fun p => (p.node, bucketNumber keccak target p.node.nodeId) := by
  induction peers with
  | nil =>
    intro nodes _
    rw [List.foldl_nil, List.map_nil, List.append_nil]
  | cons peer rest ih =>
    intro nodes h
    rw [List.length_cons] at h
    rw [List.foldl_cons, closestNodesStep_of_lt keccak target peer (by omega), ih _ (by
      rw [List.length_append, List.length_singleton]; omega)]
    rw [List.map_cons, List.append_assoc, List.singleton_append]

/-- The answer has sixteen nodes, or every peer's when there are fewer. -/
theorem length_getClosestNodes (self : KademliaTable) :
    (self.getClosestNodes keccak target).length = min self.peers.length maxNodesPerBucket := by
  rw [getClosestNodes_eq, List.length_map,
    length_foldl_closestNodesStep keccak target _ [] (Nat.zero_le _), List.length_nil, Nat.zero_add]

theorem mem_getClosestNodes {self : KademliaTable} {node : Node}
    (h : node ∈ self.getClosestNodes keccak target) : ∃ p ∈ self.peers, p.node = node := by
  rw [getClosestNodes_eq, List.mem_map] at h
  obtain ⟨x, hx, rfl⟩ := h
  rcases mem_foldl_closestNodesStep keccak target _ [] x hx with h | h
  · cases h
  · exact h

/-- Sixteen peers at one distance, then two closer ones, the second closer
than the first: the first of them pushes out the first of the sixteen, and
the second pushes out the first of them, though fifteen farther peers are
kept. -/
theorem getClosestNodes_of_scan (self : KademliaTable) (ps : List PeerData) (b₁ b₂ : PeerData)
    (D : Nat) (hscan : self.peers = ps ++ [b₁, b₂]) (hlen : ps.length = maxNodesPerBucket)
    (hps : ∀ p ∈ ps, bucketNumber keccak target p.node.nodeId = D)
    (h₁ : bucketNumber keccak target b₁.node.nodeId < D)
    (h₂ : bucketNumber keccak target b₂.node.nodeId < bucketNumber keccak target b₁.node.nodeId) :
    self.getClosestNodes keccak target = b₂.node :: ps.tail.map (·.node) := by
  obtain ⟨p, rest, rfl⟩ := List.exists_cons_of_length_eq_add_one hlen
  have hrest : rest.length + 1 = maxNodesPerBucket := by rw [← hlen, List.length_cons]
  -- the first sixteen are kept at distance `D`
  have hfill : (p :: rest).foldl (closestNodesStep keccak target) [] =
      (p.node, D) :: rest.map fun q => (q.node, D) := by
    rw [foldl_closestNodesStep_of_length_le keccak target _ [] (by rw [List.length_nil]; omega)]
    rw [List.nil_append, List.map_cons, hps p List.mem_cons_self]
    congr 1
    exact List.map_congr_left fun q hq => by rw [hps q (List.mem_cons_of_mem _ hq)]
  have hlen' : (rest.map fun q => (q.node, D)).length + 1 = maxNodesPerBucket := by
    rw [List.length_map, hrest]
  rw [getClosestNodes_eq, hscan, List.foldl_append, hfill, List.foldl_cons, List.foldl_cons,
    List.foldl_nil, closestNodesStep_of_first_farther keccak target b₁ hlen' h₁,
    closestNodesStep_of_first_farther keccak target b₂ hlen' h₂]
  rw [List.map_cons, List.map_map, List.tail_cons]
  rfl

end Scan

/-- What `get_closest_nodes` returns, for every table and target: sixteen
of the table's peers, or all of them when there are fewer; and when the
scan meets sixteen peers at one distance and then two closer ones, the
second closer than the first, the first of the two is lost while fifteen
farther peers are kept. -/
theorem getClosestNodes_replaces_first_farther (keccak : Bytes → H256) (self : KademliaTable)
    (target : FixedBytes 64) :
    (self.getClosestNodes keccak target).length = min self.peers.length maxNodesPerBucket ∧
      (∀ node ∈ self.getClosestNodes keccak target, ∃ p ∈ self.peers, p.node = node) ∧
      ∀ (ps : List PeerData) (b₁ b₂ : PeerData) (D : Nat), self.peers = ps ++ [b₁, b₂] →
        ps.length = maxNodesPerBucket → (∀ p ∈ ps, bucketNumber keccak target p.node.nodeId = D) →
        bucketNumber keccak target b₁.node.nodeId < D →
        bucketNumber keccak target b₂.node.nodeId < bucketNumber keccak target b₁.node.nodeId →
        self.getClosestNodes keccak target = b₂.node :: ps.tail.map (·.node) :=
  ⟨length_getClosestNodes keccak target self, fun _ h => mem_getClosestNodes keccak target h,
    fun ps b₁ b₂ D => getClosestNodes_of_scan keccak target self ps b₁ b₂ D⟩

end KademliaTable

/-! ## A table `insert_node` builds, where a closer peer is lost -/

/-- The id whose first byte is `b`, the others zero. -/
def prefixedId (b : UInt8) : FixedBytes 64 := ⟨b :: List.replicate 63 0, rfl⟩

/-- A node on localhost with that id. -/
def prefixedNode (b : UInt8) : Node := ⟨.v4 ⟨⟨[127, 0, 0, 1], rfl⟩⟩, 0, 0, prefixedId b⟩

/-- The table of the node with id zero after it inserts sixteen peers whose
first bytes are 1 to 16, and then two whose first bytes are `0xC0` and
`0xA0`.  To the target `0x80` the sixteen are at distance 255 and the two
at 254 and 253; to the local node the sixteen sit in buckets 248 to 252
and the two in bucket 255, so the scan meets the sixteen first. -/
def sixteenFarPeers : KademliaTable :=
  ((List.range 16).map (fun i => (i + 1).toUInt8) ++ [0xC0, 0xA0]).foldl
    (fun table b => (table.insertNode firstBytes32 (prefixedNode b) 0).2) (KademliaTable.new (prefixedId 0))

theorem sixteenFarPeers_loses_closer_peer :
    sixteenFarPeers.getClosestNodes firstBytes32 (prefixedId 0x80) =
        prefixedNode 0xA0 :: (List.range 15).map (fun i => prefixedNode (i + 2).toUInt8) ∧
      PeerData.new (prefixedNode 0xC0) 0 0 false ∈ sixteenFarPeers.peers ∧
      prefixedNode 0xC0 ∉ sixteenFarPeers.getClosestNodes firstBytes32 (prefixedId 0x80) ∧
      prefixedNode 0x02 ∈ sixteenFarPeers.getClosestNodes firstBytes32 (prefixedId 0x80) ∧
      bucketNumber firstBytes32 (prefixedId 0x80) (prefixedId 0xC0) <
        bucketNumber firstBytes32 (prefixedId 0x80) (prefixedId 0x02) := by
  have hscan : sixteenFarPeers.peers =
      (List.range 16).map (fun i => PeerData.new (prefixedNode (i + 1).toUInt8) 0 0 false) ++
        [PeerData.new (prefixedNode 0xC0) 0 0 false, PeerData.new (prefixedNode 0xA0) 0 0 false] := by
    decide +kernel
  have hanswer := (KademliaTable.getClosestNodes_replaces_first_farther firstBytes32 sixteenFarPeers
    (prefixedId 0x80)).2.2 _ _ _ 255 hscan (by decide) (by decide +kernel) (by decide +kernel)
    (by decide +kernel)
  refine ⟨hanswer.trans (by decide), by rw [hscan]; decide, ?_, ?_, by decide +kernel⟩
  · rw [hanswer]
    decide
  · rw [hanswer]
    decide

end Ethrex.P2p
