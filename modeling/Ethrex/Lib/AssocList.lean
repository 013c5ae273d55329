/-
# `Ethrex.Lib.AssocList` — association lists that are functions

A map kept as a list of entries, newest first, and read with `List.lookup`,
answers with the newest entry for a key.  When the list never held two
different values under one key (`Functional`), that answer is every entry's:
an entry once made is found by every later lookup, whatever was added in
front of it.  That is what a cache keyed by hashes needs of its hash
function, stated over the entries the cache actually received.
-/
import Mathlib.Data.List.Basic

namespace List

variable {α β : Type}

/-- No key carries two different values. -/
def Functional (l : List (α × β)) : Prop := ∀ p ∈ l, ∀ q ∈ l, p.1 = q.1 → p.2 = q.2

instance [DecidableEq α] [DecidableEq β] (l : List (α × β)) : Decidable (Functional l) :=
  inferInstanceAs (Decidable (∀ p ∈ l, ∀ q ∈ l, p.1 = q.1 → p.2 = q.2))

theorem Functional.of_append_right {l₁ l₂ : List (α × β)} (h : Functional (l₁ ++ l₂)) :
    Functional l₂ :=
  fun p hp q hq => h p (mem_append_right _ hp) q (mem_append_right _ hq)

theorem Functional.of_cons {e : α × β} {l : List (α × β)} (h : Functional (e :: l)) :
    Functional l :=
  fun p hp q hq => h p (mem_cons_of_mem _ hp) q (mem_cons_of_mem _ hq)

theorem functional_nil : Functional ([] : List (α × β)) := by
  intro p hp; simp at hp

theorem Functional.of_eq_nil {l : List (α × β)} (h : l = []) : Functional l :=
  h ▸ functional_nil

section Lookup

variable [BEq α] [LawfulBEq α]

theorem mem_of_lookup_eq_some {l : List (α × β)} {a : α} {b : β} (h : l.lookup a = some b) :
    (a, b) ∈ l := by
  induction l with
  | nil => simp at h
  | cons e l ih =>
    obtain ⟨k, v⟩ := e
    rw [lookup_cons] at h
    by_cases hk : a = k
    · subst hk
      simp only [beq_self_eq_true, Option.some.injEq] at h
      simp [h]
    · rw [show (a == k) = false from beq_false_of_ne hk] at h
      exact mem_cons_of_mem _ (ih h)

theorem lookup_eq_some_of_mem {l : List (α × β)} (hl : Functional l) {a : α} {b : β}
    (h : (a, b) ∈ l) : l.lookup a = some b := by
  induction l with
  | nil => simp at h
  | cons e l ih =>
    obtain ⟨k, v⟩ := e
    rw [lookup_cons]
    by_cases hk : a = k
    · subst hk
      simp only [beq_self_eq_true, Option.some.injEq]
      exact hl _ mem_cons_self _ h rfl
    · rw [show (a == k) = false from beq_false_of_ne hk]
      have hmem : (a, b) ∈ l := by
        rcases mem_cons.mp h with h | h
        · exact absurd (congrArg Prod.fst h) hk
        · exact h
      exact ih hl.of_cons hmem

theorem lookup_append_of_lookup {l₁ l₂ : List (α × β)} (h : Functional (l₁ ++ l₂)) {a : α}
    {b : β} (hb : l₂.lookup a = some b) : (l₁ ++ l₂).lookup a = some b :=
  lookup_eq_some_of_mem h (mem_append_right _ (mem_of_lookup_eq_some hb))

end Lookup

/-! ## Writing the entries into a function -/

section Update

variable [DecidableEq α]

/-- `g` with the entry `p` written in. -/
def updateEntry (g : α → Option β) (p : α × β) : α → Option β := Function.update g p.1 (some p.2)

theorem foldl_updateEntry_of_forall_ne {l : List (α × β)} {a : α} (h : ∀ p ∈ l, p.1 ≠ a)
    (g : α → Option β) : l.foldl updateEntry g a = g a := by
  induction l generalizing g with
  | nil => rfl
  | cons e l ih =>
    rw [foldl_cons, ih (fun p hp => h p (mem_cons_of_mem _ hp))]
    exact Function.update_of_ne (h e mem_cons_self).symm _ _

theorem foldl_updateEntry_of_mem {l : List (α × β)} (hl : Functional l) {a : α} {b : β}
    (h : (a, b) ∈ l) (g : α → Option β) : l.foldl updateEntry g a = some b := by
  induction l generalizing g with
  | nil => simp at h
  | cons e l ih =>
    rw [foldl_cons]
    by_cases hl' : (a, b) ∈ l
    · exact ih hl.of_cons hl' _
    -- the entry is the first one, and no later entry has its key
    have he : e = (a, b) := by
      rcases mem_cons.mp h with h | h
      · exact h.symm
      · exact absurd h hl'
    subst he
    have hnot : ∀ p ∈ l, p.1 ≠ a := by
      intro p hp hpa
      have hb := hl p (mem_cons_of_mem _ hp) (a, b) mem_cons_self hpa
      obtain ⟨k, v⟩ := p
      simp only at hpa hb
      subst hpa hb
      exact hl' hp
    rw [foldl_updateEntry_of_forall_ne hnot]
    simp [updateEntry]

theorem foldl_updateEntry_cases (l : List (α × β)) (g : α → Option β) (a : α) :
    l.foldl updateEntry g a = g a ∨ ∃ b, (a, b) ∈ l ∧ l.foldl updateEntry g a = some b := by
  induction l generalizing g with
  | nil => exact .inl rfl
  | cons e l ih =>
    rw [foldl_cons]
    rcases ih (updateEntry g e) with h | ⟨b, hb, h⟩
    · -- no later entry has the key: it keeps what `e` left
      by_cases ha : a = e.1
      · subst ha
        exact .inr ⟨e.2, mem_cons_self, by rw [h]; simp [updateEntry]⟩
      · exact .inl (by rw [h]; exact Function.update_of_ne ha _ _)
    · exact .inr ⟨b, mem_cons_of_mem _ hb, h⟩

end Update

end List
