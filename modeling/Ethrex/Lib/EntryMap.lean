/-
# `Ethrex.Lib.EntryMap` — a hash map as the list of its entries

Seen from outside, a `HashMap<K, V>` is its entries, one per key, in the
order its iterator visits them.  `EntryMap κ ν` is that list with the
one-per-key condition as a field, so that a map with two entries under one
key cannot be built.  The operations are the map's: `get?`, `remove`,
`modify` (a write through `get_mut`), `clear`, and `mapValues` for an
in-place pass over every value; each keeps the condition, and each has its
`get?` lemma, which is all a caller needs to know of it.

The iteration order of a real `HashMap` is not specified; a caller that
depends on it quantifies over every `EntryMap`.
-/
import Mathlib.Data.List.Nodup
import Ethrex.Lib.AssocList

/-- A `HashMap`: its entries, one per key. -/
structure EntryMap (κ ν : Type) where
  entries : List (κ × ν)
  nodup : (entries.map Prod.fst).Nodup

namespace EntryMap

variable {κ ν ν' : Type} [DecidableEq κ]

/-- `HashMap::get`. -/
def get? (m : EntryMap κ ν) (k : κ) : Option ν := m.entries.lookup k

/-- `HashMap::remove`. -/
def remove (m : EntryMap κ ν) (k : κ) : EntryMap κ ν :=
  ⟨m.entries.filter (fun e => e.1 ≠ k), m.nodup.sublist (List.filter_sublist.map Prod.fst)⟩

omit [DecidableEq κ] in
theorem map_fst_map_snd (l : List (κ × ν)) (f : κ × ν → ν') :
    (l.map fun e => (e.1, f e)).map Prod.fst = l.map Prod.fst := by
  rw [List.map_map]
  rfl

/-- `HashMap::get_mut` and a write through it: the entry under `k`, if there
is one, gets `f` of its value. -/
def modify (m : EntryMap κ ν) (k : κ) (f : ν → ν) : EntryMap κ ν :=
  ⟨m.entries.map (fun e => (e.1, if e.1 = k then f e.2 else e.2)),
    by rw [map_fst_map_snd]; exact m.nodup⟩

/-- `HashMap::iter_mut` and a write to every value. -/
def mapValues (m : EntryMap κ ν) (f : κ → ν → ν') : EntryMap κ ν' :=
  ⟨m.entries.map (fun e => (e.1, f e.1 e.2)), by rw [map_fst_map_snd]; exact m.nodup⟩

/-- `HashMap::clear`, and `HashMap::new`. -/
def clear : EntryMap κ ν := ⟨[], List.nodup_nil⟩

@[simp] theorem get?_clear (k : κ) : (clear : EntryMap κ ν).get? k = none := rfl

theorem lookup_cons_of_ne {l : List (κ × ν)} {a k : κ} {b : ν} (h : k ≠ a) :
    ((a, b) :: l).lookup k = l.lookup k := by
  rw [List.lookup_cons, beq_false_of_ne h]

theorem lookup_filter_ne (l : List (κ × ν)) (k k' : κ) :
    (l.filter fun e => e.1 ≠ k).lookup k' = if k' = k then none else l.lookup k' := by
  induction l with
  | nil => split <;> rfl
  | cons e l ih =>
    obtain ⟨a, b⟩ := e
    by_cases hak : a = k
    · -- the entry under `k` is dropped
      subst hak
      rw [List.filter_cons_of_neg (by simp), ih]
      by_cases hk : k' = a
      · rw [if_pos hk, if_pos hk]
      · rw [if_neg hk, if_neg hk, lookup_cons_of_ne hk]
    · rw [List.filter_cons_of_pos (by simpa using hak)]
      by_cases hka : k' = a
      · subst hka
        rw [List.lookup_cons_self, if_neg hak, List.lookup_cons_self]
      · rw [lookup_cons_of_ne hka, lookup_cons_of_ne hka, ih]

@[simp] theorem get?_remove (m : EntryMap κ ν) (k k' : κ) :
    (m.remove k).get? k' = if k' = k then none else m.get? k' :=
  lookup_filter_ne m.entries k k'

theorem lookup_map_snd (l : List (κ × ν)) (k : κ) (f : κ → ν → ν') :
    (l.map fun e => (e.1, f e.1 e.2)).lookup k = (l.lookup k).map (f k) := by
  induction l with
  | nil => rfl
  | cons e l ih =>
    obtain ⟨a, b⟩ := e
    rw [List.map_cons]
    by_cases hk : k = a
    · subst hk
      rw [List.lookup_cons_self, List.lookup_cons_self]
      rfl
    · rw [lookup_cons_of_ne hk, lookup_cons_of_ne hk]
      exact ih

@[simp] theorem get?_mapValues (m : EntryMap κ ν) (f : κ → ν → ν') (k : κ) :
    (m.mapValues f).get? k = (m.get? k).map (f k) :=
  lookup_map_snd m.entries k f

@[simp] theorem get?_modify (m : EntryMap κ ν) (k k' : κ) (f : ν → ν) :
    (m.modify k f).get? k' = if k' = k then (m.get? k).map f else m.get? k' := by
  have hmap := lookup_map_snd m.entries k' fun a b => if a = k then f b else b
  rw [get?, modify, hmap]
  by_cases hk : k' = k
  · subst hk
    simp only [↓reduceIte]
    rfl
  · simp only [if_neg hk, Option.map_id']
    rfl

theorem mem_of_get? {m : EntryMap κ ν} {k : κ} {v : ν} (h : m.get? k = some v) :
    (k, v) ∈ m.entries :=
  List.mem_of_lookup_eq_some h

end EntryMap
