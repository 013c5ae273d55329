/-
# `Ethrex.Lib.Vector` — vectors read off a function, and their updates

A node with a fixed number of slots is a `Vector`; the object it stands for
gives each slot by a function.  Writing one slot of the vector is updating
the function at that slot, and a vector with a few slots written is the
function that is piecewise those values.
-/
import Mathlib.Logic.Function.Basic

namespace Vector

variable {α β : Type} {n : Nat}

theorem ofFn_update (f : Fin n → α) (g : α → β) (i : Fin n) (a : α) :
    (Vector.ofFn fun j => g (Function.update f i a j)) = (Vector.ofFn fun j => g (f j)).set i (g a) := by
  ext j hj
  rw [getElem_ofFn, getElem_set]
  by_cases hij : i.val = j
  · have hi : (⟨j, hj⟩ : Fin n) = i := Fin.ext hij.symm
    rw [if_pos hij, hi, Function.update_self]
  · have hi : (⟨j, hj⟩ : Fin n) ≠ i := fun h => hij (congrArg Fin.val h).symm
    rw [if_neg hij, Function.update_of_ne hi, getElem_ofFn]

theorem ofFn_ite {a : Nat} (x z : β) :
    (Vector.ofFn fun j : Fin n => if j.val = a then x else z) = (Vector.replicate n z).set! a x := by
  ext j hj
  rw [getElem_ofFn, getElem_set!, getElem_replicate]
  by_cases hja : j = a
  · subst hja
    simp
  · simp [hja, Ne.symm hja]

theorem ofFn_ite_ite {a b : Nat} (hab : a ≠ b) (x y z : β) :
    (Vector.ofFn fun j : Fin n => if j.val = a then x else if j.val = b then y else z) =
      ((Vector.replicate n z).set! a x).set! b y := by
  ext j hj
  rw [getElem_ofFn, getElem_set!, getElem_set!, getElem_replicate]
  by_cases hja : j = a
  · subst hja
    simp [Ne.symm hab]
  · by_cases hjb : j = b
    · subst hjb
      simp [hja]
    · simp [hja, hjb, Ne.symm hja, Ne.symm hjb]

end Vector
