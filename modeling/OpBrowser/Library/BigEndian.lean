import Mathlib.Algebra.Order.Ring.Int
import Mathlib.Data.Int.Notation
import Mathlib.Data.List.Induction
import Mathlib.Tactic.Common
import Mathlib.Tactic.Ring

/-! # Two's complement integers in big-endian bytes -/

namespace OpBrowser.BigEndian

/-- The unsigned value of a string of bytes, the most significant one first. -/
def value (b : List UInt8) : ℕ := b.foldl (fun n c => 256 * n + c.toNat) 0

/-- The last `k` digits of a number in base 256. -/
def digits : ℕ → ℕ → List UInt8
  | 0, _ => []
  | k + 1, n => digits k (n / 256) ++ [(n % 256).toUInt8]

/-- The signed value of a string of bytes. -/
def decode (b : List UInt8) : ℤ :=
  if 2 * value b < 256 ^ b.length then value b else value b - 256 ^ b.length

/-- The low `k` bytes of a number. -/
def encode (k : ℕ) (z : ℤ) : List UInt8 := digits k (z % 256 ^ k).toNat

/-- The numbers that fit into `k` bytes. -/
def Fits (k : ℕ) (z : ℤ) : Prop := -256 ^ k ≤ 2 * z ∧ 2 * z < 256 ^ k

/-! ### Unsigned values -/

@[simp] theorem value_nil : value [] = 0 := rfl

@[simp] theorem value_concat (b : List UInt8) (c : UInt8) :
    value (b ++ [c]) = 256 * value b + c.toNat := by
  simp [value]

@[simp] theorem length_digits (k n : ℕ) : (digits k n).length = k := by
  induction k generalizing n with
  | zero => rfl
  | succ k ih => simp [digits, ih]

theorem value_digits (k n : ℕ) : value (digits k n) = n % 256 ^ k := by
  induction k generalizing n with
  | zero => simp [digits, Nat.mod_one]
  | succ k ih =>
      rw [digits, value_concat, ih, pow_succ, Nat.mul_comm (256 ^ k), Nat.mod_mul]
      have hbyte : (n % 256).toUInt8.toNat = n % 256 := by
        simp
      omega

theorem digits_value (b : List UInt8) : digits b.length (value b) = b := by
  induction b using List.reverseRecOn with
  | nil => rfl
  | append_singleton b c ih =>
      have hc : c.toNat < 256 := c.toNat_lt
      have hdiv : (256 * value b + c.toNat) / 256 = value b := by omega
      have hmod : (256 * value b + c.toNat) % 256 = c.toNat := by omega
      rw [List.length_append, List.length_singleton, digits, value_concat, hdiv, hmod, ih]
      simp

theorem value_lt (b : List UInt8) : value b < 256 ^ b.length := by
  have h := value_digits b.length (value b)
  rw [digits_value] at h
  rw [h]
  exact Nat.mod_lt _ (Nat.pow_pos (by decide))

/-! ### Signed values -/

@[simp] theorem length_encode (k : ℕ) (z : ℤ) : (encode k z).length = k := length_digits _ _

theorem value_encode (k : ℕ) (z : ℤ) : (value (encode k z) : ℤ) = z % 256 ^ k := by
  have hpos : (0 : ℤ) < 256 ^ k := Int.pow_pos (by decide)
  have hnonneg := Int.emod_nonneg z hpos.ne'
  have hlt : (z % 256 ^ k).toNat < 256 ^ k := by
    have h := Int.emod_lt_of_pos z hpos
    rw [Int.toNat_lt hnonneg]
    exact_mod_cast h
  rw [encode, value_digits, Nat.mod_eq_of_lt hlt, Int.toNat_of_nonneg hnonneg]

theorem decode_encode {k : ℕ} {z : ℤ} (h : Fits k z) : decode (encode k z) = z := by
  obtain ⟨hlo, hhi⟩ := h
  have hval := value_encode k z
  have hpow : ((256 ^ k : ℕ) : ℤ) = 256 ^ k := by push_cast; rfl
  rw [decode, length_encode, hval]
  by_cases hz : 0 ≤ z
  · rw [Int.emod_eq_of_lt hz (by lia)] at hval ⊢
    rw [if_pos (by lia)]
  · rw [← Int.add_emod_right, Int.emod_eq_of_lt (by lia) (by lia)] at hval ⊢
    rw [if_neg (by lia)]
    lia

theorem encode_decode (b : List UInt8) : encode b.length (decode b) = b := by
  have hlt := value_lt b
  have hmod : (decode b % 256 ^ b.length).toNat = value b := by
    have hcast : ((value b : ℕ) : ℤ) < 256 ^ b.length := by exact_mod_cast hlt
    unfold decode
    split
    · rw [Int.emod_eq_of_lt (by lia) hcast, Int.toNat_natCast]
    · rw [← Int.add_emod_right, Int.sub_add_cancel, Int.emod_eq_of_lt (by lia) hcast,
        Int.toNat_natCast]
  rw [encode, hmod, digits_value]

theorem fits_decode (b : List UInt8) : Fits b.length (decode b) := by
  have hlt : (value b : ℤ) < 256 ^ b.length := by exact_mod_cast value_lt b
  have hpow : ((256 ^ b.length : ℕ) : ℤ) = 256 ^ b.length := by push_cast; rfl
  unfold decode Fits
  split <;> constructor <;> lia

end OpBrowser.BigEndian
