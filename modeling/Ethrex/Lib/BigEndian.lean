/-
# `Ethrex.Lib.BigEndian` — naturals as big-endian byte strings

The integer layer every length prefix and every integer payload of RLP is
built from, stated for arbitrary widths and with no reference to RLP:

* `ofBytes l` — the natural whose big-endian bytes are `l`
  (`uN::from_be_bytes` when `l` has `N / 8` bytes);
* `toBytes w n` — the `w` big-endian bytes of `n`, high bits dropped
  (`uN::to_be_bytes`);
* `minimal w n` — `toBytes w n` with its leading zero bytes removed, the
  shortest big-endian form, which is what an RLP encoder writes.

The laws are the usual round trips (`ofBytes_toBytes`, `toBytes_ofBytes`),
the concatenation law `ofBytes_append` and the facts about `minimal` that a
decoder needs: it denotes `n`, it fits in `w` bytes, it is empty only for
`0`, and its first byte is never `0`.
-/
import Mathlib.Data.List.Induction
import Mathlib.Data.List.TakeWhile
import Mathlib.Tactic.Ring

namespace BigEndian

/-- The natural with the given big-endian bytes. -/
def ofBytes (l : List UInt8) : Nat :=
  l.foldl (fun acc b => acc * 256 + b.toNat) 0

/-- The `w` big-endian bytes of `n`; bits above `8 * w` are dropped. -/
def toBytes : Nat → Nat → List UInt8
  | 0, _ => []
  | w + 1, n => toBytes w (n / 256) ++ [UInt8.ofNat (n % 256)]

/-! ## `ofBytes` -/

theorem foldl_shift (a : Nat) (l : List UInt8) :
    l.foldl (fun acc b => acc * 256 + b.toNat) a = a * 256 ^ l.length + ofBytes l := by
  induction l generalizing a with
  | nil => simp [ofBytes]
  | cons b l ih =>
      simp only [List.foldl_cons, ofBytes, List.length_cons] at ih ⊢
      rw [ih, ih (0 * 256 + b.toNat), pow_succ]
      ring

@[simp] theorem ofBytes_nil : ofBytes [] = 0 := rfl

@[simp] theorem ofBytes_cons (b : UInt8) (l : List UInt8) :
    ofBytes (b :: l) = b.toNat * 256 ^ l.length + ofBytes l := by
  simp only [ofBytes, List.foldl_cons]
  rw [foldl_shift]
  simp [ofBytes]

theorem ofBytes_append (l₁ l₂ : List UInt8) :
    ofBytes (l₁ ++ l₂) = ofBytes l₁ * 256 ^ l₂.length + ofBytes l₂ := by
  simp only [ofBytes, List.foldl_append]
  exact foldl_shift _ l₂

@[simp] theorem ofBytes_append_singleton (l : List UInt8) (b : UInt8) :
    ofBytes (l ++ [b]) = ofBytes l * 256 + b.toNat := by
  simp [ofBytes_append]

theorem ofBytes_lt (l : List UInt8) : ofBytes l < 256 ^ l.length := by
  induction l with
  | nil => simp
  | cons b l ih =>
      have hb : b.toNat * 256 ^ l.length ≤ 255 * 256 ^ l.length :=
        Nat.mul_le_mul_right _ (by have := b.toNat_lt; omega)
      rw [ofBytes_cons, List.length_cons, pow_succ]
      omega

@[simp] theorem ofBytes_replicate_zero (k : Nat) : ofBytes (List.replicate k 0) = 0 := by
  induction k with
  | zero => rfl
  | succ k ih => simp [List.replicate_succ, ih]

@[simp] theorem ofBytes_zeros_append (k : Nat) (l : List UInt8) :
    ofBytes (List.replicate k 0 ++ l) = ofBytes l := by
  simp [ofBytes_append]

theorem ofBytes_eq_zero_iff (l : List UInt8) : ofBytes l = 0 ↔ ∀ b ∈ l, b = 0 := by
  induction l with
  | nil => simp
  | cons b l ih =>
      have hpos : 0 < 256 ^ l.length := Nat.pow_pos (by norm_num)
      simp only [ofBytes_cons, Nat.add_eq_zero_iff, List.mem_cons, forall_eq_or_imp, ih,
        Nat.mul_eq_zero, (Nat.pos_iff_ne_zero.mp hpos), or_false]
      rw [← UInt8.toNat_inj]
      rfl

/-! ## `toBytes` -/

@[simp] theorem toBytes_zero (n : Nat) : toBytes 0 n = [] := rfl

@[simp] theorem toBytes_succ (w n : Nat) :
    toBytes (w + 1) n = toBytes w (n / 256) ++ [UInt8.ofNat (n % 256)] := rfl

@[simp] theorem length_toBytes (w n : Nat) : (toBytes w n).length = w := by
  induction w generalizing n with
  | zero => rfl
  | succ w ih => simp [ih]

theorem ofBytes_toBytes (w n : Nat) : ofBytes (toBytes w n) = n % 256 ^ w := by
  induction w generalizing n with
  | zero => simp [Nat.mod_one]
  | succ w ih =>
      have h8 : n % 256 % 2 ^ 8 = n % 256 := Nat.mod_eq_of_lt (by omega)
      rw [toBytes_succ, ofBytes_append_singleton, ih, UInt8.toNat_ofNat', h8, pow_succ',
        Nat.mod_mul]
      ring

theorem ofBytes_toBytes_of_lt {w n : Nat} (h : n < 256 ^ w) : ofBytes (toBytes w n) = n := by
  rw [ofBytes_toBytes, Nat.mod_eq_of_lt h]

theorem toBytes_ofBytes (l : List UInt8) : toBytes l.length (ofBytes l) = l := by
  induction l using List.reverseRecOn with
  | nil => rfl
  | append_singleton l b ih =>
      have hb : b.toNat < 256 := b.toNat_lt
      have hdiv : (ofBytes l * 256 + b.toNat) / 256 = ofBytes l := by omega
      have hmod : (ofBytes l * 256 + b.toNat) % 256 = b.toNat := by omega
      rw [List.length_append, List.length_singleton, ofBytes_append_singleton, toBytes_succ,
        hdiv, hmod, ih, UInt8.ofNat_toNat]

@[simp] theorem toBytes_of_zero (k : Nat) : toBytes k 0 = List.replicate k 0 := by
  induction k with
  | zero => rfl
  | succ k ih => simp [List.replicate_succ', ih]

theorem toBytes_add (k w n : Nat) (h : n < 256 ^ w) :
    toBytes (k + w) n = List.replicate k 0 ++ toBytes w n := by
  induction w generalizing n with
  | zero =>
      have hn : n = 0 := by simpa using h
      subst hn
      simp
  | succ w ih =>
      have h' : n / 256 < 256 ^ w := by
        rw [pow_succ] at h
        omega
      rw [← Nat.add_assoc, toBytes_succ, toBytes_succ, ih _ h', List.append_assoc]

/-! ## Stripping leading zeros -/

/-- The index of the first non-zero byte, `l.len()` when there is none
(`iter().position(|&x| x != 0)`). -/
def firstNonZero (l : List UInt8) : Nat := l.findIdx (· != 0)

theorem drop_firstNonZero (l : List UInt8) :
    l.drop (firstNonZero l) = l.dropWhile (· == 0) := by
  induction l with
  | nil => rfl
  | cons b l ih =>
      by_cases hb : b = 0
      · subst hb
        simpa [firstNonZero, List.findIdx_cons] using ih
      · have hb' : (b != 0) = true := by simpa using hb
        simp [firstNonZero, List.findIdx_cons, hb', hb]

theorem ofBytes_dropWhile_zero (l : List UInt8) : ofBytes (l.dropWhile (· == 0)) = ofBytes l := by
  induction l with
  | nil => rfl
  | cons b l ih =>
      by_cases hb : b = 0
      · subst hb
        simp [ih]
      · simp [hb]

theorem length_dropWhile_le (l : List UInt8) : (l.dropWhile (· == 0)).length ≤ l.length :=
  (List.dropWhile_suffix _).length_le

theorem head_dropWhile_ne_zero {l : List UInt8} {b : UInt8} {t : List UInt8}
    (h : l.dropWhile (· == 0) = b :: t) : b ≠ 0 := by
  have hne : l.dropWhile (· == 0) ≠ [] := by simp [h]
  have := List.head_dropWhile_not (· == 0) hne
  simp only [h, List.head_cons, beq_eq_false_iff_ne, ne_eq] at this
  exact this

/-- The shortest big-endian form of `n` inside a `w`-byte word. -/
def minimal (w n : Nat) : List UInt8 := (toBytes w n).dropWhile (· == 0)

theorem ofBytes_minimal {w n : Nat} (h : n < 256 ^ w) : ofBytes (minimal w n) = n := by
  rw [minimal, ofBytes_dropWhile_zero, ofBytes_toBytes_of_lt h]

theorem length_minimal_le (w n : Nat) : (minimal w n).length ≤ w := by
  simpa [minimal] using length_dropWhile_le (toBytes w n)

theorem minimal_zero (w : Nat) : minimal w 0 = [] := by
  rw [minimal, List.dropWhile_eq_nil_iff]
  intro b hb
  have hz := (ofBytes_eq_zero_iff (toBytes w 0)).mp (by rw [ofBytes_toBytes]; simp) b hb
  simp [hz]

theorem dropWhile_zeros_append (k : Nat) (l : List UInt8) :
    (List.replicate k 0 ++ l).dropWhile (· == 0) = l.dropWhile (· == 0) := by
  induction k with
  | zero => rfl
  | succ k ih => simp [List.replicate_succ, ih]

theorem minimal_add (k : Nat) {w n : Nat} (h : n < 256 ^ w) : minimal (k + w) n = minimal w n := by
  rw [minimal, toBytes_add k w n h, dropWhile_zeros_append, minimal]

theorem minimal_of_lt_256 {w n : Nat} (hw : 1 ≤ w) (h0 : 0 < n) (h : n < 256) :
    minimal w n = [UInt8.ofNat n] := by
  obtain ⟨j, rfl⟩ := Nat.exists_eq_add_of_le hw
  have hb : ¬ (UInt8.ofNat n == 0) = true := by
    rw [beq_iff_eq, ← UInt8.toNat_inj, UInt8.toNat_ofNat']
    simp
    omega
  rw [Nat.add_comm 1 j, minimal_add j (by simpa using h), minimal, toBytes_succ, toBytes_zero,
    List.nil_append, Nat.mod_eq_of_lt h]
  exact List.dropWhile_cons_of_neg (p := (· == 0)) hb

theorem minimal_eq_toBytes {m n : Nat} (h₁ : 256 ^ (m - 1) ≤ n) (h₂ : n < 256 ^ m) :
    minimal m n = toBytes m n := by
  cases hb : toBytes m n with
  | nil => simp [minimal, hb]
  | cons b t =>
      -- a zero first byte would make the value smaller than `256 ^ (m - 1)`
      have hlen : t.length = m - 1 := by
        have := length_toBytes m n
        rw [hb, List.length_cons] at this
        omega
      have hval : ofBytes (b :: t) = n := by rw [← hb, ofBytes_toBytes_of_lt h₂]
      have hne : b ≠ 0 := by
        rintro rfl
        have := ofBytes_lt t
        rw [ofBytes_cons] at hval
        simp at hval
        rw [hlen] at this
        omega
      rw [minimal, hb, List.dropWhile_cons_of_neg (by simpa using hne)]

theorem drop_firstNonZero_toBytes (w n : Nat) :
    (toBytes w n).drop (firstNonZero (toBytes w n)) = minimal w n :=
  drop_firstNonZero _

theorem length_toBytes_sub_firstNonZero (w n : Nat) :
    (toBytes w n).length - firstNonZero (toBytes w n) = (minimal w n).length := by
  rw [← drop_firstNonZero_toBytes, List.length_drop]

theorem lt_length_minimal_of_le {w n k : Nat} (hw : n < 256 ^ w) (h : 256 ^ k ≤ n) :
    k < (minimal w n).length := by
  have hlt := ofBytes_lt (minimal w n)
  rw [ofBytes_minimal hw] at hlt
  by_contra hle
  have : 256 ^ (minimal w n).length ≤ 256 ^ k :=
    Nat.pow_le_pow_right (by norm_num) (Nat.le_of_not_lt hle)
  omega

end BigEndian
