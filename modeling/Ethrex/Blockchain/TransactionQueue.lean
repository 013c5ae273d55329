/-
# `Ethrex.Blockchain.TransactionQueue` — pending transactions by tip

`fill_transactions` (`blockchain/payload.rs`) draws the block's transactions
from two `TransactionQueue`s, one of plain transactions and one of blob
transactions.  A queue holds, for each sender, the first of its
transactions as a `HeadTransaction` (with its effective tip) in `heads`,
sorted by `Ord for HeadTransaction` (higher tip first, then earlier
arrival), and the rest of the sender's list in `txs`.  `pop` drops the
first head and its sender's rest; `shift` drops the first head and puts
its sender's next transaction into `heads` where `binary_search` says.

What the loop needs of a queue is stated over `pending`, a sender's
transactions still in it (its head, then its rest):

* `new` puts each sender's whole list in the queue (`new_spec`);
* `shift` takes the first sender's first transaction off its list, `pop`
  all of them, and neither touches another sender's
  (`pending_shift`, `pending_pop`);
* `Valid` (heads sorted, one head per sender, every tip the transaction's
  effective tip) holds of what `new` builds and is kept by `pop`, `shift`
  and `clear`, and under it `peek` answers a head no later than any other
  (`Valid.peek_isLE`).

Each of `pop` and `shift` lowers `size`, the number of transactions in the
queue: what ends the loop.
-/
import Ethrex.Types.Fees
import Ethrex.Blockchain.AddBlock
import Ethrex.Lib.SortedVec
import Ethrex.Lib.EntryMap

namespace Ethrex.Types

/-- `MempoolTransaction::time`: the arrival in the pool, in microseconds. -/
def MempoolTransaction.time (self : MempoolTransaction) : BitVec 128 := self.timestamp

end Ethrex.Types

namespace Ethrex.Blockchain

open Ethrex.Rlp (Address)
open Ethrex.Types
open SortedVec (Sorted LE sort binarySearch)

/-- `HeadTransaction`: a sender's first transaction, its sender and its
effective tip. -/
structure HeadTransaction where
  tx : MempoolTransaction
  sender : Address
  tip : UInt64
  deriving DecidableEq

/-- `impl Ord for HeadTransaction`: the higher tip first, then the earlier
arrival. -/
def HeadTransaction.cmp (self other : HeadTransaction) : Ordering :=
  match compare other.tip self.tip with
  | .eq => compare self.tx.time other.tx.time
  | ordering => ordering

/-- `TransactionQueue`. -/
structure TransactionQueue where
  heads : List HeadTransaction
  txs : EntryMap Address (List MempoolTransaction)
  baseFee : Option UInt64

/-- The error `new` and `shift` return for a transaction without an
effective tip. -/
def invalidTransactionError : ChainError :=
  .invalidBlock (.invalidTransaction
    "Attempted to add an invalid transaction to the block. The transaction filter must have failed.")

/-- The `HeadTransaction` that `new` and `shift` build of a sender's next
transaction: its tip is `effective_gas_tip(base_fee)`, or the error. -/
def HeadTransaction.ofMempool (headTx : MempoolTransaction) (sender : Address)
    (baseFee : Option UInt64) : Outcome ChainError HeadTransaction :=
  match headTx.inner.effectiveGasTip baseFee with
  | some tip => .ok { tip, tx := headTx, sender }
  | none => .err invalidTransactionError

namespace TransactionQueue

/-- The loop of `new`: `txs.remove(0)` of each sender's list, which panics
on an empty one, made into a head. -/
def newHeads (baseFee : Option UInt64) :
    List (Address × List MempoolTransaction) → Outcome ChainError (List HeadTransaction)
  | [] => .ok []
  | (address, txs) :: rest => do
    let headTx ← Outcome.unwrap txs.head?
    let head ← HeadTransaction.ofMempool headTx address baseFee
    let heads ← newHeads baseFee rest
    pure (head :: heads)

/-- `TransactionQueue::new`: the heads sorted, each list without its head. -/
def new (txs : EntryMap Address (List MempoolTransaction)) (baseFee : Option UInt64) :
    Outcome ChainError TransactionQueue := do
  let heads ← newHeads baseFee txs.entries
  pure { heads := sort HeadTransaction.cmp heads, txs := txs.mapValues fun _ txs => txs.tail,
         baseFee }

/-- `TransactionQueue::clear`. -/
def clear (self : TransactionQueue) : TransactionQueue := { self with heads := [], txs := .clear }

/-- `TransactionQueue::is_empty`. -/
def isEmpty (self : TransactionQueue) : Bool := self.heads.isEmpty

/-- `TransactionQueue::peek`. -/
def peek (self : TransactionQueue) : Option HeadTransaction := self.heads.head?

/-- `TransactionQueue::pop`: the first head and all of its sender's
transactions go. -/
def pop (self : TransactionQueue) : TransactionQueue :=
  match self.heads with
  | [] => self
  | head :: heads => { self with heads, txs := self.txs.remove head.sender }

/-- `TransactionQueue::shift`: the first head goes, and its sender's next
transaction, if any, goes into `heads` where `binary_search` says. -/
def shift (self : TransactionQueue) : Outcome ChainError TransactionQueue := do
  -- `self.heads.remove(0)`: panics on an empty queue
  let tx ← Outcome.unwrap self.heads.head?
  let heads := self.heads.tail
  match self.txs.get? tx.sender with
  | some (headTx :: _) =>
    let head ← HeadTransaction.ofMempool headTx tx.sender self.baseFee
    let index := SortedVec.Except.index (binarySearch HeadTransaction.cmp heads head)
    pure { self with heads := heads.insertIdx index head, txs := self.txs.modify tx.sender List.tail }
  | _ => pure { self with heads }

/-- A sender's transactions still in the queue: its head, then its rest. -/
def pending (self : TransactionQueue) (sender : Address) : List MempoolTransaction :=
  match self.heads.find? (fun h => h.sender == sender) with
  | some head => head.tx :: (self.txs.get? sender).getD []
  | none => []

/-- The number of transactions in the queue. -/
def size (self : TransactionQueue) : Nat :=
  self.heads.length + (self.txs.entries.map fun e => e.2.length).sum

/-- What `fill_transactions` relies on: the heads sorted, one head per
sender, and every head's tip its transaction's effective tip. -/
structure Valid (queue : TransactionQueue) : Prop where
  sorted : Sorted HeadTransaction.cmp queue.heads
  senders : (queue.heads.map (·.sender)).Nodup
  tips : ∀ h ∈ queue.heads, h.tx.inner.effectiveGasTip queue.baseFee = some h.tip

end TransactionQueue

/-! ## The order of heads -/

section Order

open Std

theorem HeadTransaction.cmp_eq_compareLex :
    HeadTransaction.cmp = compareLex (fun a b => compareOn (·.tip) b a) (compareOn (·.tx.time)) := by
  funext a b
  show HeadTransaction.cmp a b = (compare b.tip a.tip).then (compare a.tx.time b.tx.time)
  unfold HeadTransaction.cmp
  cases compare b.tip a.tip <;> rfl

instance : TransCmp HeadTransaction.cmp := by
  rw [HeadTransaction.cmp_eq_compareLex]
  infer_instance

theorem isLE_compare_time {a b : HeadTransaction} :
    (compare a.tx.time b.tx.time).isLE ↔ a.tx.time ≤ b.tx.time :=
  isLE_compareOfLessAndEq BitVec.le_antisymm BitVec.not_le BitVec.le_total

theorem HeadTransaction.isLE_cmp_iff {a b : HeadTransaction} :
    (a.cmp b).isLE ↔ b.tip < a.tip ∨ (b.tip = a.tip ∧ a.tx.time ≤ b.tx.time) := by
  unfold HeadTransaction.cmp
  cases htip : compare b.tip a.tip with
  | lt =>
    have hlt : b.tip < a.tip := Std.compare_eq_lt.mp htip
    exact ⟨fun _ => .inl hlt, fun _ => rfl⟩
  | gt =>
    -- a lower tip goes later
    have hgt : a.tip < b.tip := Std.compare_eq_gt.mp htip
    show Ordering.gt.isLE ↔ _
    refine ⟨fun hle => absurd hle (by decide), ?_⟩
    rintro (hlt | ⟨heq, -⟩)
    · exact absurd (UInt64.lt_trans hlt hgt) (UInt64.lt_irrefl _)
    · exact absurd (heq ▸ hgt) (UInt64.lt_irrefl _)
  | eq =>
    have heq : b.tip = a.tip := Std.compare_eq_eq_iff_eq.mp htip
    show (compare a.tx.time b.tx.time).isLE ↔ _
    rw [isLE_compare_time, heq]
    exact ⟨fun hle => .inr ⟨rfl, hle⟩, fun h => h.elim (fun hlt => absurd hlt (UInt64.lt_irrefl _)) And.right⟩

end Order

namespace TransactionQueue

variable {q q' : TransactionQueue} {h : HeadTransaction} {hs : List HeadTransaction}

/-! ## Finding a sender's head -/

theorem find?_sender_of_mem {l : List HeadTransaction} (hl : (l.map (·.sender)).Nodup)
    (hmem : h ∈ l) : l.find? (fun x => x.sender == h.sender) = some h := by
  induction l with
  | nil => cases hmem
  | cons x l ih =>
    rw [List.map_cons, List.nodup_cons] at hl
    rcases List.mem_cons.mp hmem with rfl | hmem
    · exact List.find?_cons_of_pos (beq_self_eq_true _)
    · -- `x` is another sender's head
      have hne : x.sender ≠ h.sender := fun heq => hl.1 (heq ▸ List.mem_map_of_mem hmem)
      rw [List.find?_cons_of_neg (by simpa using hne)]
      exact ih hl.2 hmem

theorem find?_sender_eq_none {l : List HeadTransaction} {s : Address}
    (hl : ∀ x ∈ l, x.sender ≠ s) : l.find? (fun x => x.sender == s) = none :=
  List.find?_eq_none.mpr fun x hx => by simpa using hl x hx

theorem find?_insertIdx_of_ne {l : List HeadTransaction} {s : Address} {i : Nat}
    (hs : h.sender ≠ s) :
    (l.insertIdx i h).find? (fun x => x.sender == s) = l.find? (fun x => x.sender == s) := by
  by_cases hi : i ≤ l.length
  · rw [SortedVec.insertIdx_eq_take_append_drop hi, List.find?_append,
      List.find?_cons_of_neg (by simpa using hs), ← List.find?_append, List.take_append_drop]
  · rw [List.insertIdx_of_length_lt (by omega)]

theorem pending_of_find? {s : Address} {x : HeadTransaction}
    (hfind : q.heads.find? (fun h => h.sender == s) = some x) :
    q.pending s = x.tx :: (q.txs.get? s).getD [] := by
  unfold pending
  rw [hfind]

theorem pending_of_find?_none {s : Address}
    (hfind : q.heads.find? (fun h => h.sender == s) = none) : q.pending s = [] := by
  unfold pending
  rw [hfind]

theorem pending_first (hheads : q.heads = h :: hs) :
    q.pending h.sender = h.tx :: (q.txs.get? h.sender).getD [] :=
  pending_of_find? (by rw [hheads]; exact List.find?_cons_of_pos (by simp))

/-! ## `new` -/

theorem ofMempool_spec {headTx : MempoolTransaction} {sender : Address}
    {baseFee : Option UInt64} {head : HeadTransaction}
    (hof : HeadTransaction.ofMempool headTx sender baseFee = .ok head) :
    head.tx = headTx ∧ head.sender = sender ∧ headTx.inner.effectiveGasTip baseFee = some head.tip := by
  unfold HeadTransaction.ofMempool at hof
  split at hof
  · rename_i tip htip
    cases hof
    exact ⟨rfl, rfl, htip⟩
  · cases hof


theorem newHeads_spec {baseFee : Option UInt64} :
    ∀ {entries : List (Address × List MempoolTransaction)} {heads : List HeadTransaction},
      newHeads baseFee entries = .ok heads →
        heads.map (·.sender) = entries.map Prod.fst ∧
        (∀ h ∈ heads, h.tx.inner.effectiveGasTip baseFee = some h.tip) ∧
        (∀ e ∈ entries, ∃ h ∈ heads, h.sender = e.1 ∧ e.2.head? = some h.tx)
  | [], heads, hnew => by
    cases hnew
    exact ⟨rfl, (fun _ hx => by cases hx), (fun _ he => by cases he)⟩
  | (address, txs) :: rest, heads, hnew => by
    rw [newHeads] at hnew
    obtain ⟨headTx, hhead, hnew⟩ := Outcome.bind_eq_ok.mp hnew
    obtain ⟨head, hof, hnew⟩ := Outcome.bind_eq_ok.mp hnew
    obtain ⟨heads', hrest, hnew⟩ := Outcome.bind_eq_ok.mp hnew
    cases hnew
    obtain ⟨hsenders, htips, hfirsts⟩ := newHeads_spec hrest
    obtain ⟨htx, hsender, htip⟩ := ofMempool_spec hof
    -- the head is `txs`'s first transaction with its tip
    have hfirst : txs.head? = some headTx := by
      cases htxs : txs.head? with
      | none => rw [htxs] at hhead; cases hhead
      | some x => rw [htxs] at hhead; cases hhead; rfl
    refine ⟨?_, ?_, ?_⟩
    · rw [List.map_cons, List.map_cons, hsenders, hsender]
    · intro x hx
      rcases List.mem_cons.mp hx with rfl | hx
      · rw [htx]; exact htip
      · exact htips x hx
    · intro e he
      rcases List.mem_cons.mp he with rfl | he
      · exact ⟨head, List.mem_cons_self, hsender, htx ▸ hfirst⟩
      · obtain ⟨x, hx, hxe⟩ := hfirsts e he
        exact ⟨x, List.mem_cons_of_mem _ hx, hxe⟩

theorem new_spec {txs : EntryMap Address (List MempoolTransaction)} {baseFee : Option UInt64}
    (hnew : new txs baseFee = .ok q) :
    q.Valid ∧ q.baseFee = baseFee ∧ ∀ s, q.pending s = (txs.get? s).getD [] := by
  unfold new at hnew
  obtain ⟨heads, hheads, hnew⟩ := Outcome.bind_eq_ok.mp hnew
  cases hnew
  obtain ⟨hsenders, htips, hfirsts⟩ := newHeads_spec hheads
  have hperm := @SortedVec.perm_sort _ HeadTransaction.cmp heads
  have hnodup : ((sort HeadTransaction.cmp heads).map (·.sender)).Nodup := by
    rw [(hperm.map _).nodup_iff, hsenders]
    exact txs.nodup
  refine ⟨⟨SortedVec.sorted_sort heads, hnodup, fun x hx => htips x (hperm.mem_iff.mp hx)⟩, rfl, ?_⟩
  intro s
  unfold pending
  cases hget : txs.get? s with
  | none =>
    -- no list for `s`, so no head for `s`
    rw [find?_sender_eq_none]
    · rfl
    intro x hx heq
    have hmem : x.sender ∈ txs.entries.map Prod.fst :=
      hsenders ▸ List.mem_map_of_mem (hperm.mem_iff.mp hx)
    obtain ⟨⟨k, v⟩, hkv, hk⟩ := List.mem_map.mp hmem
    simp only at hk
    rw [EntryMap.get?, List.lookup_eq_none_iff] at hget
    have hne := hget (k, v) hkv
    simp [hk, heq] at hne
  | some l =>
    -- `s`'s head is the first of `l`, the rest `l`'s tail
    obtain ⟨x, hx, hsender, hfirst⟩ := hfirsts (s, l) (EntryMap.mem_of_get? hget)
    simp only at hsender hfirst
    have hfind := find?_sender_of_mem hnodup (hperm.mem_iff.mpr hx)
    rw [hsender] at hfind
    simp only [hfind, EntryMap.get?_mapValues, hget, Option.map_some, Option.getD_some]
    cases l with
    | nil => cases hfirst
    | cons y rest =>
      rw [List.head?_cons, Option.some.injEq] at hfirst
      rw [hfirst]
      rfl

/-! ## `peek` -/

theorem Valid.peek_isLE (hq : q.Valid) (hpeek : q.peek = some h) :
    ∀ h' ∈ q.heads, (h.cmp h').isLE := by
  unfold peek at hpeek
  cases hheads : q.heads with
  | nil => rw [hheads] at hpeek; cases hpeek
  | cons x xs =>
    rw [hheads, List.head?_cons, Option.some.injEq] at hpeek
    subst hpeek
    have hsorted := hq.sorted
    rw [hheads] at hsorted
    exact SortedVec.Sorted.isLE_head hsorted

/-! ## `pop` -/

theorem heads_eq_of_peek (hpeek : q.peek = some h) : q.heads = h :: q.heads.tail := by
  obtain ⟨tail, htail⟩ := List.head?_eq_some_iff.mp hpeek
  rw [htail, List.tail_cons]

theorem pop_of_cons (hheads : q.heads = h :: hs) :
    q.pop = { q with heads := hs, txs := q.txs.remove h.sender } := by
  unfold pop
  rw [hheads]

theorem Valid.pop (hq : q.Valid) : q.pop.Valid := by
  unfold TransactionQueue.pop
  split
  · exact hq
  · rename_i head heads hheads
    have hsorted := hq.sorted
    have hsenders := hq.senders
    rw [hheads] at hsorted hsenders
    refine ⟨SortedVec.Sorted.tail hsorted, (List.nodup_cons.mp hsenders).2, ?_⟩
    intro x hx
    exact hq.tips x (hheads ▸ List.mem_cons_of_mem _ hx)

theorem pending_pop (hq : q.Valid) (hheads : q.heads = h :: hs) (s : Address) :
    q.pop.pending s = if s = h.sender then [] else q.pending s := by
  have hsenders := hq.senders
  rw [hheads, List.map_cons, List.nodup_cons] at hsenders
  have hpop := pop_of_cons hheads
  by_cases hs' : s = h.sender
  · -- no other head of `h`'s sender is left
    subst hs'
    rw [if_pos rfl]
    apply pending_of_find?_none
    rw [hpop]
    exact find?_sender_eq_none fun x hx heq => hsenders.1 (heq ▸ List.mem_map_of_mem hx)
  · rw [if_neg hs']
    unfold pending
    rw [hpop, hheads, List.find?_cons_of_neg (by simpa using Ne.symm hs')]
    simp only [EntryMap.get?_remove, if_neg hs']

@[simp] theorem baseFee_pop : q.pop.baseFee = q.baseFee := by
  unfold pop
  split <;> rfl

theorem size_pop_lt (hheads : q.heads = h :: hs) : q.pop.size < q.size := by
  rw [pop_of_cons hheads]
  unfold size
  rw [hheads, List.length_cons]
  have hle : ((q.txs.remove h.sender).entries.map fun e => e.2.length).sum ≤
      (q.txs.entries.map fun e => e.2.length).sum :=
    List.Sublist.sum_le_sum ((List.filter_sublist).map _) (fun _ _ => Nat.zero_le _)
  simp only at hle ⊢
  omega

/-! ## `shift` -/

theorem shift_of_next {headTx : MempoolTransaction} {rest : List MempoolTransaction}
    (hheads : q.heads = h :: hs) (hget : q.txs.get? h.sender = some (headTx :: rest))
    (hshift : q.shift = .ok q') :
    ∃ head, HeadTransaction.ofMempool headTx h.sender q.baseFee = .ok head ∧
      q' = { q with
        heads := hs.insertIdx (SortedVec.Except.index (binarySearch HeadTransaction.cmp hs head)) head,
        txs := q.txs.modify h.sender List.tail } := by
  unfold shift at hshift
  rw [hheads] at hshift
  simp only [List.head?_cons, Outcome.unwrap_some, Outcome.ok_bind, List.tail_cons, hget] at hshift
  obtain ⟨head, hof, hq'⟩ := Outcome.bind_eq_ok.mp hshift
  cases hq'
  exact ⟨head, hof, rfl⟩

theorem shift_of_no_next (hheads : q.heads = h :: hs)
    (hget : ∀ headTx rest, q.txs.get? h.sender ≠ some (headTx :: rest)) :
    q.shift = .ok { q with heads := hs } := by
  unfold shift
  rw [hheads]
  simp only [List.head?_cons, Outcome.unwrap_some, Outcome.ok_bind, List.tail_cons]
  cases hnext : q.txs.get? h.sender with
  | none => rfl
  | some l =>
    cases l with
    | nil => rfl
    | cons headTx rest => exact absurd hnext (hget headTx rest)

theorem Valid.shift (hq : q.Valid) (hshift : q.shift = .ok q') : q'.Valid := by
  cases hheads : q.heads with
  | nil =>
    unfold TransactionQueue.shift at hshift
    rw [hheads] at hshift
    cases hshift
  | cons h hs =>
    have hsorted := hq.sorted
    have hsenders := hq.senders
    rw [hheads] at hsorted hsenders
    rw [List.map_cons, List.nodup_cons] at hsenders
    have htips : ∀ x ∈ hs, x.tx.inner.effectiveGasTip q.baseFee = some x.tip :=
      fun x hx => hq.tips x (hheads ▸ List.mem_cons_of_mem _ hx)
    have hsorted' : Sorted HeadTransaction.cmp hs := SortedVec.Sorted.tail hsorted
    by_cases hnext : ∃ headTx rest, q.txs.get? h.sender = some (headTx :: rest)
    · obtain ⟨headTx, rest, hget⟩ := hnext
      obtain ⟨head, hof, rfl⟩ := shift_of_next hheads hget hshift
      obtain ⟨htx, hsender, htip⟩ := ofMempool_spec hof
      have hle := SortedVec.Except.index_le_length (x := head) hsorted'
      have hperm := List.perm_insertIdx head hs hle
      refine ⟨SortedVec.sorted_insertIdx_binarySearch hsorted', ?_, ?_⟩
      · -- the new head's sender had no other head
        show ((hs.insertIdx _ head).map (·.sender)).Nodup
        rw [(hperm.map _).nodup_iff, List.map_cons, List.nodup_cons, hsender]
        exact hsenders
      · intro x hx
        rcases List.mem_cons.mp (hperm.mem_iff.mp hx) with rfl | hx
        · rw [htx]
          exact htip
        · exact htips x hx
    · have hno : ∀ headTx rest, q.txs.get? h.sender ≠ some (headTx :: rest) :=
        fun headTx rest hget => hnext ⟨headTx, rest, hget⟩
      rw [shift_of_no_next hheads hno, Outcome.ok.injEq] at hshift
      subst hshift
      exact ⟨hsorted', hsenders.2, htips⟩

theorem pending_shift (hq : q.Valid) (hheads : q.heads = h :: hs) (hshift : q.shift = .ok q')
    (s : Address) : q'.pending s = if s = h.sender then (q.pending s).tail else q.pending s := by
  have hsenders := hq.senders
  rw [hheads, List.map_cons, List.nodup_cons] at hsenders
  have hsorted : Sorted HeadTransaction.cmp hs := SortedVec.Sorted.tail (hheads ▸ hq.sorted)
  have hothers : ∀ x ∈ hs, x.sender ≠ h.sender :=
    fun x hx heq => hsenders.1 (heq ▸ List.mem_map_of_mem hx)
  -- another sender's head is found in `q'` as in `q`, its rest unchanged
  have hother : ∀ heads' : List HeadTransaction, s ≠ h.sender →
      (heads'.find? fun x => x.sender == s) = hs.find? (fun x => x.sender == s) →
      (q'.txs.get? s = q.txs.get? s) → q'.heads = heads' → q'.pending s = q.pending s := by
    intro heads' hs' hfind hget hq'
    unfold pending
    rw [hq', hfind, hget, hheads, List.find?_cons_of_neg (by simpa using Ne.symm hs')]
  by_cases hnext : ∃ headTx rest, q.txs.get? h.sender = some (headTx :: rest)
  · obtain ⟨headTx, rest, hget⟩ := hnext
    obtain ⟨head, hof, rfl⟩ := shift_of_next hheads hget hshift
    obtain ⟨htx, hsender, -⟩ := ofMempool_spec hof
    have hle := SortedVec.Except.index_le_length (x := head) hsorted
    by_cases hs' : s = h.sender
    · -- the new head is the sender's next transaction, its rest what followed
      subst hs'
      rw [if_pos rfl, pending_first hheads, hget, List.tail_cons]
      have hnodup : ((hs.insertIdx (SortedVec.Except.index
          (binarySearch HeadTransaction.cmp hs head)) head).map (·.sender)).Nodup := by
        rw [((List.perm_insertIdx head hs hle).map _).nodup_iff, List.map_cons, List.nodup_cons,
          hsender]
        exact hsenders
      have hfind := find?_sender_of_mem hnodup ((List.perm_insertIdx head hs hle).mem_iff.mpr List.mem_cons_self)
      rw [hsender] at hfind
      rw [pending_of_find? hfind, EntryMap.get?_modify, if_pos rfl, hget, htx]
      rfl
    · rw [if_neg hs']
      exact hother _ hs' (find?_insertIdx_of_ne (hsender ▸ Ne.symm hs'))
        (by rw [EntryMap.get?_modify, if_neg hs']) rfl
  · have hno : ∀ headTx rest, q.txs.get? h.sender ≠ some (headTx :: rest) :=
      fun headTx rest hget => hnext ⟨headTx, rest, hget⟩
    rw [shift_of_no_next hheads hno, Outcome.ok.injEq] at hshift
    subst hshift
    by_cases hs' : s = h.sender
    · -- the sender had nothing after its head
      subst hs'
      rw [if_pos rfl, pending_first hheads, List.tail_cons,
        pending_of_find?_none (find?_sender_eq_none hothers)]
      cases hget : q.txs.get? h.sender with
      | none => rfl
      | some l =>
        cases l with
        | nil => rfl
        | cons headTx rest => exact absurd hget (hno headTx rest)
    · rw [if_neg hs']
      exact hother _ hs' rfl rfl rfl

theorem sum_length_modify_tail {m : EntryMap Address (List MempoolTransaction)} {s : Address}
    {x : MempoolTransaction} {rest : List MempoolTransaction} (hget : m.get? s = some (x :: rest)) :
    ((m.modify s List.tail).entries.map fun e => e.2.length).sum + 1 =
      (m.entries.map fun e => e.2.length).sum := by
  obtain ⟨entries, hnodup⟩ := m
  unfold EntryMap.get? at hget
  unfold EntryMap.modify
  simp only at hget ⊢
  induction entries with
  | nil => cases hget
  | cons e entries ih =>
    obtain ⟨k, v⟩ := e
    rw [List.map_cons, List.nodup_cons] at hnodup
    simp only [List.map_cons, List.sum_cons]
    by_cases hk : k = s
    · -- the one entry under `s`: the others keep their lengths
      subst hk
      rw [List.lookup_cons_self, Option.some.injEq] at hget
      subst hget
      have hrest : (entries.map fun e => (e.1, if e.1 = k then e.2.tail else e.2)) = entries := by
        conv_rhs => rw [← List.map_id entries]
        apply List.map_congr_left
        intro e he
        have hne : e.1 ≠ k := by
          intro heq
          apply hnodup.1
          show k ∈ entries.map Prod.fst
          rw [← heq]
          exact List.mem_map_of_mem he
        rw [if_neg hne]
        rfl
      rw [if_pos rfl, hrest, List.tail_cons, List.length_cons]
      omega
    · rw [EntryMap.lookup_cons_of_ne (Ne.symm hk)] at hget
      rw [if_neg hk]
      have := ih hnodup.2 hget
      omega

theorem size_shift_lt (hheads : q.heads = h :: hs) (hshift : q.shift = .ok q') :
    q'.size < q.size := by
  by_cases hnext : ∃ headTx rest, q.txs.get? h.sender = some (headTx :: rest)
  · obtain ⟨headTx, rest, hget⟩ := hnext
    obtain ⟨head, -, rfl⟩ := shift_of_next hheads hget hshift
    have hlen := List.length_insertIdx_le_succ (l := hs) (x := head)
      (i := SortedVec.Except.index (binarySearch HeadTransaction.cmp hs head))
    have hsum := sum_length_modify_tail hget
    unfold size
    rw [hheads, List.length_cons]
    simp only at hlen hsum ⊢
    omega
  · have hno : ∀ headTx rest, q.txs.get? h.sender ≠ some (headTx :: rest) :=
      fun headTx rest hget => hnext ⟨headTx, rest, hget⟩
    rw [shift_of_no_next hheads hno, Outcome.ok.injEq] at hshift
    subst hshift
    unfold size
    rw [hheads, List.length_cons]
    simp only
    omega

theorem baseFee_shift (hshift : q.shift = .ok q') : q'.baseFee = q.baseFee := by
  cases hheads : q.heads with
  | nil =>
    unfold shift at hshift
    rw [hheads] at hshift
    cases hshift
  | cons h hs =>
    by_cases hnext : ∃ headTx rest, q.txs.get? h.sender = some (headTx :: rest)
    · obtain ⟨headTx, rest, hget⟩ := hnext
      obtain ⟨head, -, rfl⟩ := shift_of_next hheads hget hshift
      rfl
    · have hno : ∀ headTx rest, q.txs.get? h.sender ≠ some (headTx :: rest) :=
        fun headTx rest hget => hnext ⟨headTx, rest, hget⟩
      rw [shift_of_no_next hheads hno, Outcome.ok.injEq] at hshift
      subst hshift
      rfl

/-! ## `clear` -/

theorem valid_clear : q.clear.Valid :=
  ⟨List.Pairwise.nil, List.nodup_nil, fun _ hx => by cases hx⟩

@[simp] theorem pending_clear (s : Address) : q.clear.pending s = [] := rfl

@[simp] theorem size_clear : q.clear.size = 0 := rfl

@[simp] theorem baseFee_clear : q.clear.baseFee = q.baseFee := rfl

end TransactionQueue

end Ethrex.Blockchain
