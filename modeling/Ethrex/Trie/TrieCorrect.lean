/-
# `Ethrex.Trie.TrieCorrect` — the trie is a map from byte paths to values

`Trie` holds a root hash over a state of cached and stored nodes.  What it
is for is a finite map from byte paths to non-empty values, and its root
hash is a commitment to that map.  This module relates the two.

| | |
| :-- | :-- |
| `Trie.Represents` | the root is the canonical tree's, all of it stored: the invariant |
| `Trie.get_represents` | `Trie::get` reads the tree's value at `from_bytes` of the path |
| `Trie.insert_represents`, `Trie.remove_represents` | both succeed and keep the invariant, with the tree's contents updated |
| `Trie.Maps` | the trie holds a map over byte paths |
| `Trie.runOps_maps` | every run of calls returns what the map says and leaves the map after the calls |
| `Trie.hashNoCommit_maps` | two tries holding one map have one root hash |
| `Trie.hashNoCommit_runOps` | so the root after a run depends on the map it leaves alone |
| `Trie.computeHashFromUnsortedIter_maps` | and `compute_hash_from_unsorted_iter` agrees with it |

## The one hypothesis

Every result over the state assumes that the cache the calls leave never
held two different nodes under one hash (`List.Functional`): a collision of
`keccak` among the nodes the calls made.  The source's cache is a hash map
that overwrites such an entry, and the trie then reads the wrong node; no
statement about its contents could hold there.  The hypothesis names the
cache after the calls, so it can be checked on a run.

Values are non-empty (`Op.Valid`): an empty value is no value to
`BranchNode::get`, and the canonical shape has no empty leaf.
-/
import Ethrex.Trie.RemoveCorrect
import Ethrex.Lib.HashStandIn

namespace Ethrex.Mpt

open Ethrex.Rlp

/-- `t` holds `M`'s values at the paths `from_bytes` makes, and none
elsewhere. -/
def Tree.MapsBytes (t : Tree) (M : Bytes → Option ValueRLP) : Prop :=
  (∀ path, t.lookup (Nibbles.fromBytes path).data = M path) ∧
    ∀ k x, t.lookup k = some x → ∃ path, k = (Nibbles.fromBytes path).data

namespace Tree

theorem MapsBytes.update {t t' : Tree} {M : Bytes → Option ValueRLP} (h : t.MapsBytes M)
    {path : Bytes} {w : Option ValueRLP}
    (h' : t'.lookup = Function.update t.lookup (Nibbles.fromBytes path).data w) :
    t'.MapsBytes (Function.update M path w) := by
  obtain ⟨hM, hpaths⟩ := h
  refine ⟨fun q => ?_, fun k x hk => ?_⟩
  · rw [h']
    by_cases hq : q = path
    · subst hq
      simp
    · have hne : (Nibbles.fromBytes q).data ≠ (Nibbles.fromBytes path).data :=
        fun he => hq (Nibbles.fromBytes_injective (congrArg Nibbles.mk he))
      rw [Function.update_of_ne hne, Function.update_of_ne hq, hM]
  · by_cases hkp : k = (Nibbles.fromBytes path).data
    · exact ⟨path, hkp⟩
    · rw [h', Function.update_of_ne hkp] at hk
      exact hpaths k x hk

theorem MapsBytes.lookup_eq {t₁ t₂ : Tree} {M : Bytes → Option ValueRLP} (h₁ : t₁.MapsBytes M)
    (h₂ : t₂.MapsBytes M) : t₁.lookup = t₂.lookup := by
  funext k
  by_cases hk : ∃ path, k = (Nibbles.fromBytes path).data
  · obtain ⟨path, rfl⟩ := hk
    rw [h₁.1, h₂.1]
  · have hnone : ∀ t : Tree, t.MapsBytes M → t.lookup k = none := fun t ht => by
      cases hx : t.lookup k with
      | none => rfl
      | some x => exact absurd (ht.2 k x hx) hk
    rw [hnone t₁ h₁, hnone t₂ h₂]

end Tree

namespace Trie

/-- A call on the trie: `Trie::insert` or `Trie::remove`. -/
inductive Op where
  | insert (path : Bytes) (value : ValueRLP)
  | remove (path : Bytes)

namespace Op

/-- What the call does to the map. -/
def apply (M : Bytes → Option ValueRLP) : Op → Bytes → Option ValueRLP
  | .insert path value => Function.update M path (some value)
  | .remove path => Function.update M path none

/-- What the call returns, read off the map: nothing for an insert, the
value the path had for a remove. -/
def result (M : Bytes → Option ValueRLP) : Op → Option ValueRLP
  | .insert _ _ => none
  | .remove path => M path

/-- An insert's value is not empty. -/
def Valid : Op → Prop
  | .insert _ value => value ≠ []
  | .remove _ => True

instance : DecidablePred Valid := fun op =>
  match op with
  | .insert _ value => inferInstanceAs (Decidable (value ≠ []))
  | .remove _ => inferInstanceAs (Decidable True)

/-- The calls on the map: what each returns, and the map after them. -/
def runMap (M : Bytes → Option ValueRLP) : List Op → List (Option ValueRLP) × (Bytes → Option ValueRLP)
  | [] => ([], M)
  | op :: ops => (op.result M :: (runMap (op.apply M) ops).1, (runMap (op.apply M) ops).2)

end Op

section Correct

variable (keccak : Bytes → H256)

/-- The trie holds the canonical tree `t`: no root for the empty tree, else
the hash of `t`'s root, with all of `t` stored in the trie's state. -/
def Represents (self : Trie) (t : Tree) : Prop :=
  t.Canonical ∧ match self.root with
    | none => t = .empty
    | some root => t ≠ .empty ∧ root = t.nodeHash keccak ∧ t.Stored keccak self.state

/-- The trie maps each byte path as `M` does. -/
def Maps (self : Trie) (M : Bytes → Option ValueRLP) : Prop :=
  ∃ t, self.Represents keccak t ∧ t.MapsBytes M

/-- The root hash of a tree: `EMPTY_TRIE_HASH` for the empty one. -/
def rootHash (t : Tree) : H256 :=
  match t with
  | .empty => emptyTrieHash keccak
  | t => (t.nodeHash keccak).finalize keccak

variable {keccak}

theorem onState_ok {α : Type} {self self' : Trie} {x : TrieM α} {Q : α → TrieState → Prop}
    {r : Except TrieError α} (hx : TrieM.Spec x self.state Q) (heq : self.onState x = (r, self'))
    (hf : self'.state.cache.Functional) : ∃ a, r = .ok a ∧ Q a self'.state ∧ self'.root = self.root := by
  simp only [onState, TrieM.run, Prod.mk.injEq] at heq
  obtain ⟨rfl, rfl⟩ := heq
  obtain ⟨a, ha, hQ⟩ := hx hf
  exact ⟨a, ha, hQ, rfl⟩

theorem length_lt_visitBound (p : Nibbles) : p.data.length < visitBound p := by
  unfold visitBound
  rw [Nibbles.len_eq]
  omega

theorem get_represents {self : Trie} {t : Tree} (h : self.Represents keccak t) (path : Bytes) :
    self.get path = .ok (t.lookup (Nibbles.fromBytes path).data) := by
  obtain ⟨ht, hroot⟩ := h
  unfold Trie.get
  cases hr : self.root with
  | none =>
    simp only [hr] at hroot
    subst hroot
    rfl
  | some root =>
    simp only [hr] at hroot
    obtain ⟨hne, rfl, hs⟩ := hroot
    simp only [Tree.Stored.getNode hs hne, Except.ok_bind]
    exact Node.get_toNode keccak ht hne (Tree.Stored.childrenStored hs)
      (Nibbles.isTerminated_fromBytes path) (length_lt_visitBound _)

theorem insert_represents {self : Trie} {t : Tree} {path : Bytes} {value : ValueRLP}
    (h : self.Represents keccak t) (hvalue : value ≠ [])
    (hf : (self.insert keccak path value).2.state.cache.Functional) :
    (self.insert keccak path value).1 = .ok () ∧ ∃ t', (self.insert keccak path value).2.Represents keccak t' ∧
      t'.lookup = Function.update t.lookup (Nibbles.fromBytes path).data (some value) := by
  obtain ⟨ht, hroot⟩ := h
  simp only [Trie.insert] at hf ⊢
  generalize hres : Trie.onState (α := NodeHash) _ _ = res at hf ⊢
  obtain ⟨r, self'⟩ := res
  have hf' : self'.state.cache.Functional := by
    cases r <;> exact hf
  refine (onState_ok (Q := fun h s' =>
    ∃ t' : Tree, h = t'.nodeHash keccak ∧ t'.Stored keccak s' ∧ t'.Canonical ∧ t' ≠ .empty ∧
      t'.lookup = Function.update t.lookup (Nibbles.fromBytes path).data (some value)) ?_ hres hf').elim ?_
  rotate_left
  · rintro a ⟨rfl, ⟨t', rfl, hstored, ht'c, ht'ne, ht'l⟩, -⟩
    exact ⟨rfl, t', ⟨ht'c, ht'ne, rfl, hstored⟩, ht'l⟩
  · -- the operation on the state: into the root node, or a new leaf
    have hk := Nibbles.isTerminated_fromBytes path
    cases hr : self.root with
    | none =>
      simp only [hr] at hroot
      subst hroot
      refine TrieM.Spec.pure_bind ?_
      refine (TrieM.Spec.insertSelf_tree keccak (t := .leaf (Nibbles.fromBytes path).data value)
        ⟨hk, hvalue⟩ Tree.noConfusion trivial).mono ?_
      rintro h s' ⟨hh, hstored, -⟩
      exact ⟨_, hh, hstored, ⟨hk, hvalue⟩, Tree.noConfusion, Tree.lookup_leaf_of_empty _ value⟩
    | some root =>
      simp only [hr] at hroot
      obtain ⟨hne, rfl, hs⟩ := hroot
      refine TrieM.Spec.bind (TrieM.Spec.getNodeM_stored keccak hs hne) ?_
      rintro _ s' - ⟨rfl, rfl⟩
      refine TrieM.Spec.bind (Node.insert_spec hvalue (visitBound (Nibbles.fromBytes path)) _ t
        (Nibbles.fromBytes path).data ht hne (Tree.Stored.childrenStored hs) hk ?_) ?_
      · unfold visitBound
        rw [Nibbles.len_eq]
        omega
      rintro n s₁ - ⟨t', ⟨ht'ne, rfl, ht's⟩, ht'c, ht'l⟩
      refine (TrieM.Spec.insertSelf_tree keccak ht'c ht'ne ht's).mono ?_
      rintro h s₂ ⟨rfl, hstored, -⟩
      exact ⟨t', rfl, hstored, ht'c, ht'ne, ht'l⟩



theorem remove_represents {self : Trie} {t : Tree} {path : Bytes} (h : self.Represents keccak t)
    (hf : (self.remove keccak path).2.state.cache.Functional) :
    (self.remove keccak path).1 = .ok (t.lookup (Nibbles.fromBytes path).data) ∧
      ∃ t', (self.remove keccak path).2.Represents keccak t' ∧
        t'.lookup = Function.update t.lookup (Nibbles.fromBytes path).data none := by
  obtain ⟨ht, hroot⟩ := h
  have hk := Nibbles.isTerminated_fromBytes path
  cases hr : self.root with
  | none =>
    -- the empty trie: nothing to remove
    simp only [hr] at hroot
    subst hroot
    simp only [Trie.remove, hr]
    exact ⟨rfl, .empty, ⟨trivial, by simp [hr]⟩, (Tree.update_none_of_lookup rfl).symm⟩
  | some root =>
    simp only [hr] at hroot
    obtain ⟨hne, rfl, hs⟩ := hroot
    simp only [Trie.remove, hr] at hf ⊢
    generalize hres : Trie.onState (α := Option NodeHash × Option ValueRLP) _ _ = res at hf ⊢
    obtain ⟨r, self'⟩ := res
    have hf' : self'.state.cache.Functional := by
      rcases r with _ | ⟨_, _⟩ <;> exact hf
    refine (onState_ok (Q := fun a s' => a.2 = t.lookup (Nibbles.fromBytes path).data ∧
      ∃ t', Represents keccak ⟨a.1, s'⟩ t' ∧
        t'.lookup = Function.update t.lookup (Nibbles.fromBytes path).data none) ?_ hres hf').elim ?_
    rotate_left
    · rintro ⟨root', oldValue⟩ ⟨rfl, ⟨hold, hQ⟩, -⟩
      exact ⟨congrArg Except.ok hold, hQ⟩
    -- the operation on the state: out of the root node, and what is left stored again
    refine TrieM.Spec.bind (TrieM.Spec.getNodeM_stored keccak hs hne) ?_
    rintro _ s' - ⟨rfl, rfl⟩
    refine TrieM.Spec.bind (Node.remove_spec (visitBound (Nibbles.fromBytes path)) _ t
      (Nibbles.fromBytes path).data ht hne (Tree.Stored.childrenStored hs) hk
      (length_lt_visitBound _)) ?_
    rintro ⟨rootNode, oldValue⟩ s₁ - ⟨hold, t', hrem, ht'c, ht'l⟩
    cases rootNode with
    | none =>
      obtain rfl : t' = .empty := hrem
      exact TrieM.Spec.pure_bind (TrieM.Spec.pure fun _ => ⟨hold, .empty, ⟨trivial, rfl⟩, ht'l⟩)
    | some n =>
      obtain ⟨ht'ne, rfl, ht's⟩ := hrem
      refine TrieM.Spec.bind (TrieM.Spec.map
        (Q := fun o s₂ => o = some (t'.nodeHash keccak) ∧ t'.Stored keccak s₂)
        (TrieM.Spec.insertSelf_tree keccak ht'c ht'ne ht's)
        fun h s₂ hP => ⟨by rw [hP.1], hP.2.1⟩) ?_
      rintro _ s₂ - ⟨rfl, hstored⟩
      exact TrieM.Spec.pure fun _ => ⟨hold, t', ⟨ht'c, ht'ne, rfl, hstored⟩, ht'l⟩

theorem hashNoCommit_represents {self : Trie} {t : Tree} (h : self.Represents keccak t) :
    self.hashNoCommit keccak = rootHash keccak t := by
  obtain ⟨-, hroot⟩ := h
  unfold hashNoCommit
  cases hr : self.root with
  | none =>
    simp only [hr] at hroot
    subst hroot
    rfl
  | some root =>
    simp only [hr] at hroot
    obtain ⟨hne, rfl, -⟩ := hroot
    cases t with
    | empty => exact absurd rfl hne
    | _ => rfl

theorem new_represents (db : Bytes → Option Bytes) : (new db).Represents keccak .empty :=
  ⟨trivial, rfl⟩

/-! ## The trie as a map -/

theorem new_maps (db : Bytes → Option Bytes) : (new db).Maps keccak fun _ => none :=
  ⟨.empty, new_represents db, fun _ => rfl, fun _ _ h => by simp at h⟩

theorem get_maps {self : Trie} {M : Bytes → Option ValueRLP} (h : self.Maps keccak M) (path : Bytes) :
    self.get path = .ok (M path) := by
  obtain ⟨t, ht, hM⟩ := h
  rw [get_represents ht, hM.1]

theorem insert_maps {self : Trie} {M : Bytes → Option ValueRLP} {path : Bytes} {value : ValueRLP}
    (h : self.Maps keccak M) (hvalue : value ≠ [])
    (hf : (self.insert keccak path value).2.state.cache.Functional) :
    (self.insert keccak path value).1 = .ok () ∧
      (self.insert keccak path value).2.Maps keccak (Function.update M path (some value)) := by
  obtain ⟨t, ht, hM⟩ := h
  obtain ⟨hok, t', ht', hl⟩ := insert_represents ht hvalue hf
  exact ⟨hok, t', ht', hM.update hl⟩

theorem remove_maps {self : Trie} {M : Bytes → Option ValueRLP} {path : Bytes}
    (h : self.Maps keccak M) (hf : (self.remove keccak path).2.state.cache.Functional) :
    (self.remove keccak path).1 = .ok (M path) ∧
      (self.remove keccak path).2.Maps keccak (Function.update M path none) := by
  obtain ⟨t, ht, hM⟩ := h
  obtain ⟨hok, t', ht', hl⟩ := remove_represents ht hf
  exact ⟨by rw [hok, hM.1], t', ht', hM.update hl⟩

theorem hashNoCommit_maps {self₁ self₂ : Trie} {M : Bytes → Option ValueRLP} (h₁ : self₁.Maps keccak M)
    (h₂ : self₂.Maps keccak M) : self₁.hashNoCommit keccak = self₂.hashNoCommit keccak := by
  obtain ⟨t₁, ht₁, hM₁⟩ := h₁
  obtain ⟨t₂, ht₂, hM₂⟩ := h₂
  have heq : t₁ = t₂ := Tree.Canonical.eq_of_lookup_eq ht₁.1 ht₂.1 (congrFun (hM₁.lookup_eq hM₂))
  rw [hashNoCommit_represents ht₁, hashNoCommit_represents ht₂, heq]

/-! ## The state only grows -/

theorem onState_state {α : Type} {self self' : Trie} {x : TrieM α} {r : Except TrieError α}
    (heq : self.onState x = (r, self')) : self'.state = self.state.extend (x self.state).2 := by
  simp only [onState, TrieM.run, Prod.mk.injEq] at heq
  rw [← heq.2]

variable (keccak) in
theorem insert_grows (self : Trie) (path : Bytes) (value : ValueRLP) :
    ∃ w, (self.insert keccak path value).2.state = self.state.extend w := by
  simp only [Trie.insert]
  generalize hres : Trie.onState (α := NodeHash) _ _ = res
  obtain ⟨r, self'⟩ := res
  have hstate := onState_state hres
  rcases r with _ | _ <;> exact ⟨_, hstate⟩

variable (keccak) in
theorem remove_grows (self : Trie) (path : Bytes) :
    ∃ w, (self.remove keccak path).2.state = self.state.extend w := by
  cases hr : self.root with
  | none =>
    simp only [Trie.remove, hr]
    exact ⟨[], rfl⟩
  | some root =>
    simp only [Trie.remove, hr]
    generalize hres : Trie.onState (α := Option NodeHash × Option ValueRLP) _ _ = res
    obtain ⟨r, self'⟩ := res
    have hstate := onState_state hres
    rcases r with _ | ⟨_, _⟩ <;> exact ⟨_, hstate⟩

/-! ## Runs of calls -/

section Runs

variable (keccak)

/-- One call on the trie: what it returns, `none` for an insert, and the
trie after it. -/
def step (self : Trie) : Op → Except TrieError (Option ValueRLP) × Trie
  | .insert path value =>
    ((self.insert keccak path value).1.map fun _ => none, (self.insert keccak path value).2)
  | .remove path => self.remove keccak path

/-- The calls one after another: what each returned, and the trie after
them. -/
def runOps (self : Trie) : List Op → List (Except TrieError (Option ValueRLP)) × Trie
  | [] => ([], self)
  | op :: ops =>
    ((self.step keccak op).1 :: ((self.step keccak op).2.runOps ops).1,
      ((self.step keccak op).2.runOps ops).2)

variable {keccak}

variable (keccak) in
theorem step_grows (self : Trie) (op : Op) :
    ∃ w, (self.step keccak op).2.state = self.state.extend w := by
  cases op with
  | insert path value => exact insert_grows keccak self path value
  | remove path => exact remove_grows keccak self path

theorem step_maps {self : Trie} {M : Bytes → Option ValueRLP} {op : Op} (h : self.Maps keccak M)
    (hv : op.Valid) (hf : (self.step keccak op).2.state.cache.Functional) :
    (self.step keccak op).1 = .ok (op.result M) ∧ (self.step keccak op).2.Maps keccak (op.apply M) := by
  cases op with
  | insert path value =>
    obtain ⟨hok, hM⟩ := insert_maps h hv hf
    exact ⟨by simp only [step, hok]; rfl, hM⟩
  | remove path => exact remove_maps h hf

variable (keccak) in
theorem runOps_grows (self : Trie) (ops : List Op) :
    ∃ w, (self.runOps keccak ops).2.state = self.state.extend w := by
  induction ops generalizing self with
  | nil => exact ⟨[], rfl⟩
  | cons op ops ih =>
    obtain ⟨w, hw⟩ := step_grows keccak self op
    obtain ⟨w', hw'⟩ := ih (self.step keccak op).2
    exact ⟨w' ++ w, by rw [runOps, hw', hw, TrieState.extend_extend]⟩

theorem functional_of_grows {s s' : TrieState} {w : List (NodeHash × Node)} (hw : s' = s.extend w)
    (hf : s'.cache.Functional) : s.cache.Functional := by
  rw [hw] at hf
  exact hf.of_append_right

/-- Every call of a run on a trie holding `M` returns what the map says,
and the trie after the run holds the map after it, unless two nodes were
cached under one hash. -/
theorem runOps_maps {self : Trie} {M : Bytes → Option ValueRLP} {ops : List Op}
    (h : self.Maps keccak M) (hv : ∀ op ∈ ops, op.Valid)
    (hf : (self.runOps keccak ops).2.state.cache.Functional) :
    (self.runOps keccak ops).1 = (Op.runMap M ops).1.map .ok ∧
      (self.runOps keccak ops).2.Maps keccak (Op.runMap M ops).2 := by
  induction ops generalizing self M with
  | nil => exact ⟨rfl, h⟩
  | cons op ops ih =>
    -- the first call sees a part of the cache the run leaves
    obtain ⟨w, hw⟩ := runOps_grows keccak (self.step keccak op).2 ops
    obtain ⟨hok, hM⟩ := step_maps h (hv op List.mem_cons_self) (functional_of_grows hw hf)
    obtain ⟨hoks, hM'⟩ := ih hM (fun op' hop' => hv op' (List.mem_cons_of_mem op hop')) hf
    exact ⟨by simp only [runOps, Op.runMap, List.map_cons, hok, hoks], hM'⟩

theorem runOps_append (self : Trie) (ops ops' : List Op) :
    (self.runOps keccak (ops ++ ops')).2 = ((self.runOps keccak ops).2.runOps keccak ops').2 := by
  induction ops generalizing self with
  | nil => rfl
  | cons op ops ih => exact ih (self.step keccak op).2

theorem runOps_take_maps {self : Trie} {M : Bytes → Option ValueRLP} {ops : List Op}
    (h : self.Maps keccak M) (hv : ∀ op ∈ ops, op.Valid)
    (hf : (self.runOps keccak ops).2.state.cache.Functional) (n : Nat) :
    (self.runOps keccak (ops.take n)).2.Maps keccak (Op.runMap M (ops.take n)).2 := by
  obtain ⟨w, hw⟩ := runOps_grows keccak (self.runOps keccak (ops.take n)).2 (ops.drop n)
  rw [← runOps_append, List.take_append_drop] at hw
  have hv' : ∀ op ∈ ops.take n, op.Valid := fun op hop => hv op (List.mem_of_mem_take hop)
  exact (runOps_maps h hv' (functional_of_grows hw hf)).2

/-- A run of calls on an empty trie: every call succeeds and returns what
the map says, for a remove the value the path had, and after every call
`Trie::get` answers what the map says. -/
theorem runOps_new_agrees {db : Bytes → Option Bytes} {ops : List Op} (hv : ∀ op ∈ ops, op.Valid)
    (hf : ((new db).runOps keccak ops).2.state.cache.Functional) :
    ((new db).runOps keccak ops).1 = (Op.runMap (fun _ => none) ops).1.map .ok ∧
      ∀ n path, ((new db).runOps keccak (ops.take n)).2.get path =
        .ok ((Op.runMap (fun _ => none) (ops.take n)).2 path) :=
  ⟨(runOps_maps (new_maps db) hv hf).1,
    fun n path => get_maps (runOps_take_maps (new_maps db) hv hf n) path⟩

/-- The two calls of the fixed examples: a 32-byte value under `[0x12]`,
whose leaf is longer than a hash, and one byte under `[0x13]`, whose leaf
stays inline in the branch above it. -/
def longShort : List Op := [.insert [0x12] (List.replicate 32 1), .insert [0x13] [0x56]]

/-- The same map reached the long way: the other order, with a third path
written and removed in between. -/
def longShortDetour : List Op :=
  [.insert [0x13] [0x56], .insert [0x14] (List.replicate 32 3), .insert [0x12] (List.replicate 32 1),
    .remove [0x14]]

theorem runMap_longShortDetour :
    (Op.runMap (fun _ => none) longShortDetour).2 = (Op.runMap (fun _ => none) longShort).2 := by
  funext q
  simp only [longShort, longShortDetour, Op.runMap, Op.apply, Function.update_apply]
  split_ifs <;> simp_all

/-- The fixed calls and a remove, under the stand-in for `keccak`: four
hashed nodes are cached, and the remove leaves the short leaf inline as the
root. -/
theorem runOps_new_agrees_long_short :
    (∀ op ∈ longShort ++ [.remove [0x12]], op.Valid) ∧
      (stateless.runOps firstBytes32 (longShort ++ [.remove [0x12]])).2.state.cache.Functional ∧
      (stateless.runOps firstBytes32 (longShort ++ [.remove [0x12]])).1 =
        [.ok none, .ok none, .ok (some (List.replicate 32 1))] ∧
      (stateless.runOps firstBytes32 (longShort ++ [.remove [0x12]])).2.get [0x13] =
        .ok (some [0x56]) := by
  have hv : ∀ op ∈ longShort ++ [.remove [0x12]], op.Valid := by decide
  have hf : (stateless.runOps firstBytes32 (longShort ++ [.remove [0x12]])).2.state.cache.Functional := by
    decide
  obtain ⟨hres, hget⟩ := runOps_new_agrees hv hf
  exact ⟨hv, hf, hres, hget 3 [0x13]⟩

/-- Two runs from empty tries that leave one map leave one root hash:
`Trie::hash_no_commit` depends on the map alone, not on the calls that
made it. -/
theorem hashNoCommit_runOps {db₁ db₂ : Bytes → Option Bytes} {ops₁ ops₂ : List Op}
    (hv₁ : ∀ op ∈ ops₁, op.Valid) (hv₂ : ∀ op ∈ ops₂, op.Valid)
    (hf₁ : ((new db₁).runOps keccak ops₁).2.state.cache.Functional)
    (hf₂ : ((new db₂).runOps keccak ops₂).2.state.cache.Functional)
    (hM : (Op.runMap (fun _ => none) ops₁).2 = (Op.runMap (fun _ => none) ops₂).2) :
    ((new db₁).runOps keccak ops₁).2.hashNoCommit keccak =
      ((new db₂).runOps keccak ops₂).2.hashNoCommit keccak := by
  have h₁ := (runOps_maps (new_maps db₁) hv₁ hf₁).2
  have h₂ := (runOps_maps (new_maps db₂) hv₂ hf₂).2
  rw [hM] at h₁
  exact hashNoCommit_maps h₁ h₂

/-- The fixed calls and their long way round leave one root, over hashed
nodes. -/
theorem hashNoCommit_runOps_detour :
    (∀ op ∈ longShort, op.Valid) ∧ (∀ op ∈ longShortDetour, op.Valid) ∧
      (stateless.runOps firstBytes32 longShort).2.state.cache.Functional ∧
      (stateless.runOps firstBytes32 longShortDetour).2.state.cache.Functional ∧
      (stateless.runOps firstBytes32 longShort).2.hashNoCommit firstBytes32 =
        (stateless.runOps firstBytes32 longShortDetour).2.hashNoCommit firstBytes32 := by
  have hv₁ : ∀ op ∈ longShort, op.Valid := by decide
  have hv₂ : ∀ op ∈ longShortDetour, op.Valid := by decide
  have hf₁ : (stateless.runOps firstBytes32 longShort).2.state.cache.Functional := by decide
  have hf₂ : (stateless.runOps firstBytes32 longShortDetour).2.state.cache.Functional := by decide
  exact ⟨hv₁, hv₂, hf₁, hf₂, hashNoCommit_runOps hv₁ hv₂ hf₁ hf₂ runMap_longShortDetour.symm⟩

/-- The inserts of `compute_hash_from_unsorted_iter`, as calls. -/
def inserts (iter : List (Bytes × ValueRLP)) : List Op := iter.map fun e => .insert e.1 e.2

variable (keccak) in
theorem insertAll_grows (self : Trie) (iter : List (Bytes × ValueRLP)) :
    ∃ w, (self.insertAll keccak iter).2.state = self.state.extend w := by
  induction iter generalizing self with
  | nil => exact ⟨[], rfl⟩
  | cons e iter ih =>
    obtain ⟨w, hw⟩ := insert_grows keccak self e.1 e.2
    simp only [insertAll]
    split
    · rename_i self' heq
      obtain ⟨w', hw'⟩ := ih self'
      rw [heq] at hw
      exact ⟨w' ++ w, by rw [hw', hw, TrieState.extend_extend]⟩
    · rename_i self' heq
      rw [heq] at hw
      exact ⟨w, hw⟩

/-- The insertion loop on a trie holding `M` succeeds and leaves the trie
holding `M` with the entries set in order. -/
theorem insertAll_maps {self : Trie} {M : Bytes → Option ValueRLP} {iter : List (Bytes × ValueRLP)}
    (h : self.Maps keccak M) (hv : ∀ e ∈ iter, e.2 ≠ [])
    (hf : (self.insertAll keccak iter).2.state.cache.Functional) :
    (self.insertAll keccak iter).1 = .ok () ∧
      (self.insertAll keccak iter).2.Maps keccak (Op.runMap M (inserts iter)).2 := by
  induction iter generalizing self M with
  | nil => exact ⟨rfl, h⟩
  | cons e iter ih =>
    simp only [insertAll] at hf ⊢
    split at hf
    · rename_i self' heq
      obtain ⟨w, hw⟩ := insertAll_grows keccak self' iter
      have hins := insert_maps h (hv e List.mem_cons_self) (by rw [heq]; exact functional_of_grows hw hf)
      rw [heq] at hins
      exact ih hins.2 (fun e' he' => hv e' (List.mem_cons_of_mem e he')) hf
    · -- an error: the insert did not succeed, which the map excludes
      rename_i ex self' heq
      have hins := insert_maps h (hv e List.mem_cons_self) (by rw [heq]; exact hf)
      rw [heq] at hins
      exact absurd hins.1 (by simp)

/-- `compute_hash_from_unsorted_iter` is the root hash of every trie that
holds the map its entries make: of the trie built from them, and of any
trie a run of inserts and removes left with that map. -/
theorem computeHashFromUnsortedIter_maps {iter : List (Bytes × ValueRLP)} {self : Trie}
    (hv : ∀ e ∈ iter, e.2 ≠ [])
    (hf : (stateless.insertAll keccak iter).2.state.cache.Functional)
    (h : self.Maps keccak (Op.runMap (fun _ => none) (inserts iter)).2) :
    computeHashFromUnsortedIter keccak iter = .ok (self.hashNoCommit keccak) := by
  have hempty : stateless.Maps keccak fun _ => none := new_maps _
  obtain ⟨hok, hM⟩ := insertAll_maps hempty hv hf
  unfold computeHashFromUnsortedIter
  rw [show stateless.insertAll keccak iter = ((stateless.insertAll keccak iter).1,
    (stateless.insertAll keccak iter).2) from rfl, hok]
  exact congrArg Except.ok (hashNoCommit_maps hM h)

/-- The entries of the fixed calls hash to the root of their long way
round. -/
theorem computeHashFromUnsortedIter_detour :
    (∀ e ∈ [(([0x12] : Bytes), (List.replicate 32 1 : ValueRLP)), ([0x13], [0x56])], e.2 ≠ []) ∧
      (stateless.insertAll firstBytes32
        [([0x12], List.replicate 32 1), ([0x13], [0x56])]).2.state.cache.Functional ∧
      (stateless.runOps firstBytes32 longShortDetour).2.Maps firstBytes32
        (Op.runMap (fun _ => none) (inserts [([0x12], List.replicate 32 1), ([0x13], [0x56])])).2 ∧
      computeHashFromUnsortedIter firstBytes32 [([0x12], List.replicate 32 1), ([0x13], [0x56])] =
        .ok ((stateless.runOps firstBytes32 longShortDetour).2.hashNoCommit firstBytes32) := by
  have hv : ∀ e ∈ [(([0x12] : Bytes), (List.replicate 32 1 : ValueRLP)), ([0x13], [0x56])], e.2 ≠ [] := by
    decide
  have hf : (stateless.insertAll firstBytes32
      [([0x12], List.replicate 32 1), ([0x13], [0x56])]).2.state.cache.Functional := by
    decide
  -- the long way round holds the entries' map: their inserts are `longShort`
  have hv' : ∀ op ∈ longShortDetour, op.Valid := by decide
  have hf' : (stateless.runOps firstBytes32 longShortDetour).2.state.cache.Functional := by decide
  have h := (runOps_maps (new_maps _) hv' hf').2
  rw [runMap_longShortDetour] at h
  exact ⟨hv, hf, h, computeHashFromUnsortedIter_maps hv hf h⟩

/-- Removing a path that had no value right after inserting it gives the
root hash back. -/
theorem hashNoCommit_insert_remove {self : Trie} {M : Bytes → Option ValueRLP} {path : Bytes}
    {value : ValueRLP} (h : self.Maps keccak M) (hpath : M path = none) (hvalue : value ≠ [])
    (hf : ((self.insert keccak path value).2.remove keccak path).2.state.cache.Functional) :
    ((self.insert keccak path value).2.remove keccak path).2.hashNoCommit keccak =
      self.hashNoCommit keccak := by
  obtain ⟨w, hw⟩ := remove_grows keccak (self.insert keccak path value).2 path
  have hins := (insert_maps h hvalue (functional_of_grows hw hf)).2
  have hrem := (remove_maps hins hf).2
  rw [Function.update_idem, Function.update_eq_self_iff.mpr hpath.symm] at hrem
  exact hashNoCommit_maps hrem h

/-- A third path written and removed on the trie of the fixed calls. -/
theorem hashNoCommit_insert_remove_long_short :
    (stateless.runOps firstBytes32 longShort).2.Maps firstBytes32 (Op.runMap (fun _ => none) longShort).2 ∧
      (Op.runMap (fun _ => none) longShort).2 [0x14] = none ∧
      (((stateless.runOps firstBytes32 longShort).2.insert firstBytes32 [0x14]
        (List.replicate 32 3)).2.remove firstBytes32 [0x14]).2.state.cache.Functional ∧
      (((stateless.runOps firstBytes32 longShort).2.insert firstBytes32 [0x14]
        (List.replicate 32 3)).2.remove firstBytes32 [0x14]).2.hashNoCommit firstBytes32 =
        (stateless.runOps firstBytes32 longShort).2.hashNoCommit firstBytes32 := by
  have hv : ∀ op ∈ longShort, op.Valid := by decide
  have hf : (stateless.runOps firstBytes32 longShort).2.state.cache.Functional := by decide
  have h := (runOps_maps (new_maps _) hv hf).2
  have hpath : (Op.runMap (fun _ => none) longShort).2 [0x14] = none := by decide
  have hf' : (((stateless.runOps firstBytes32 longShort).2.insert firstBytes32 [0x14]
      (List.replicate 32 3)).2.remove firstBytes32 [0x14]).2.state.cache.Functional := by
    decide
  exact ⟨h, hpath, hf', hashNoCommit_insert_remove h hpath (by decide) hf'⟩

end Runs

end Correct

end Trie

end Ethrex.Mpt
