/-
# `Ethrex.Lib.Buckets` — a table of buckets, each key in the bucket its index names

A hash table or a routing table keeps its entries in a list of buckets and
files each entry under the bucket whose index a function of its key names.
Bucket `i` is read with `getD`, so that an index past the end reads an
empty bucket, and written with `List.modify`, which writes nothing past the
end.

* Writing a bucket changes that bucket only (`getD_modify_self`,
  `getD_modify_of_ne`; past the end, `List.modify_eq_self`).
* An entry of the table is an entry of one of its buckets
  (`mem_flatMap_iff_getD`).
* Within a bucket whose keys are distinct, the key at a position is gone
  once that position is erased or overwritten (`not_mem_map_eraseIdx`,
  `not_mem_map_set`).
* Where the keys of every bucket are distinct and each names its bucket's
  index, the keys of the whole table are distinct
  (`nodup_flatMap_of_index`): a key can only be in the bucket it names, so
  no key is in two.
-/
import Mathlib.Data.List.Nodup
import Mathlib.Data.List.GetD
import Mathlib.Data.List.Perm.Basic

namespace Buckets

variable {β γ : Type} (d : β)

theorem getD_modify_self (l : List β) (f : β → β) {i : Nat} (h : i < l.length) :
    (l.modify i f).getD i d = f (l.getD i d) := by
  rw [List.getD_eq_getElem?_getD, List.getElem?_modify, List.getD_eq_getElem?_getD,
    List.getElem?_eq_getElem h]
  simp

theorem getD_modify_of_ne (l : List β) (f : β → β) {i j : Nat} (h : i ≠ j) :
    (l.modify i f).getD j d = l.getD j d := by
  rw [List.getD_eq_getElem?_getD, List.getElem?_modify, List.getD_eq_getElem?_getD]
  cases l[j]? <;> simp [h]

theorem mem_flatMap_iff_getD (l : List β) (f : β → List γ) (x : γ) :
    x ∈ l.flatMap f ↔ ∃ i < l.length, x ∈ f (l.getD i d) := by
  rw [List.mem_flatMap]
  constructor
  · rintro ⟨b, hb, hx⟩
    obtain ⟨i, hi, rfl⟩ := List.getElem_of_mem hb
    exact ⟨i, hi, by rw [List.getD_eq_getElem l d hi]; exact hx⟩
  · rintro ⟨i, hi, hx⟩
    rw [List.getD_eq_getElem l d hi] at hx
    exact ⟨l[i], List.getElem_mem hi, hx⟩

theorem nodup_of_subperm {l l' : List γ} (h : l'.Subperm l) (hl : l.Nodup) : l'.Nodup := by
  obtain ⟨m, hperm, hsub⟩ := h
  exact hperm.nodup_iff.mp (hl.sublist hsub)

theorem perm_set_cons_eraseIdx {l : List β} {idx : Nat} (hidx : idx < l.length) (a : β) :
    (l.set idx a).Perm (a :: l.eraseIdx idx) := by
  rw [List.set_eq_take_cons_drop a hidx, List.eraseIdx_eq_take_drop_succ]
  exact List.perm_middle

theorem not_mem_map_eraseIdx {l : List β} {key : β → γ} (hnd : (l.map key).Nodup) {idx : Nat}
    (hidx : idx < l.length) : key l[idx] ∉ (l.eraseIdx idx).map key :=
  (List.nodup_cons.mp (((List.getElem_cons_eraseIdx_perm hidx).map key).nodup_iff.mpr hnd)).1

theorem not_mem_map_set {l : List β} {key : β → γ} (hnd : (l.map key).Nodup) {idx : Nat}
    (hidx : idx < l.length) {a : β} (ha : key a ≠ key l[idx]) : key l[idx] ∉ (l.set idx a).map key := by
  intro hmem
  rcases List.mem_cons.mp (((perm_set_cons_eraseIdx hidx a).map key).subset hmem) with h | h
  · exact ha h.symm
  · exact not_mem_map_eraseIdx hnd hidx h

theorem nodup_flatMap_of_index (l : List β) (f : β → List γ) (index : γ → Nat)
    (hindex : ∀ i < l.length, ∀ x ∈ f (l.getD i d), index x = i)
    (hnodup : ∀ i < l.length, (f (l.getD i d)).Nodup) : (l.flatMap f).Nodup := by
  refine List.nodup_flatMap.mpr ⟨fun b hb => ?_, List.pairwise_iff_getElem.mpr ?_⟩
  · obtain ⟨i, hi, rfl⟩ := List.getElem_of_mem hb
    have := hnodup i hi
    rwa [List.getD_eq_getElem l d hi] at this
  · -- two buckets share no key: it would name both their indices
    intro i j hi hj hij x hxi hxj
    have h₁ := hindex i hi x (by rw [List.getD_eq_getElem l d hi]; exact hxi)
    have h₂ := hindex j hj x (by rw [List.getD_eq_getElem l d hj]; exact hxj)
    omega

end Buckets
