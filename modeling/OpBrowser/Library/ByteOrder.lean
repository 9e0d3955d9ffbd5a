import Mathlib.Data.List.Induction
import OpBrowser.Library.BigEndian

/-! # Words in memory and on the wire

A word of `w` bits takes `w / 8` bytes. A little-endian host keeps the least
significant one first; on the wire it comes last. -/

namespace OpBrowser.ByteOrder

open BigEndian

variable {w : ℕ}

/-- The bytes of a word in the memory of a little-endian host. -/
def memory (x : BitVec w) : List UInt8 := (digits (w / 8) x.toNat).reverse

/-- The word behind a pointer to these bytes. -/
def ofMemory (w : ℕ) (b : List UInt8) : BitVec w := BitVec.ofNat w (value b.reverse)

/-- The word with its bytes in the opposite order. -/
def swap (x : BitVec w) : BitVec w := ofMemory w (memory x).reverse

/-- The bytes of a word from the most significant one on, by shifts and masks. -/
def shiftOut (x : BitVec w) : List UInt8 :=
  (List.range (w / 8)).reverse.map fun i => ⟨(x >>> (8 * i)).setWidth 8⟩

/-- The word that these bytes make up, by shifts. -/
def shiftIn (w : ℕ) (b : List UInt8) : BitVec w :=
  b.foldl (fun x c => x <<< 8 ||| c.toBitVec.setWidth w) 0

/-! ### Memory -/

@[simp] theorem length_memory (x : BitVec w) : (memory x).length = w / 8 := by simp [memory]

theorem pow_bytes (hw : 8 ∣ w) : 256 ^ (w / 8) = 2 ^ w := by
  rw [show 256 = 2 ^ 8 by decide, ← pow_mul, Nat.mul_div_cancel' hw]

theorem ofMemory_memory (hw : 8 ∣ w) (x : BitVec w) : ofMemory w (memory x) = x := by
  rw [ofMemory, memory, List.reverse_reverse, value_digits, pow_bytes hw,
    Nat.mod_eq_of_lt x.isLt, BitVec.ofNat_toNat, BitVec.setWidth_eq]

theorem memory_ofMemory {b : List UInt8} (hw : 8 ∣ w) (hb : b.length = w / 8) :
    memory (ofMemory w b) = b := by
  have hlt := value_lt b.reverse
  rw [List.length_reverse, hb, pow_bytes hw] at hlt
  rw [memory, ofMemory, BitVec.toNat_ofNat, Nat.mod_eq_of_lt hlt, ← hb, ← List.length_reverse,
    digits_value, List.reverse_reverse]

/-- The bytes of a swapped word in memory. -/
theorem memory_swap (hw : 8 ∣ w) (x : BitVec w) : memory (swap x) = digits (w / 8) x.toNat := by
  rw [swap, memory_ofMemory hw (by rw [List.length_reverse, length_memory]), memory,
    List.reverse_reverse]

theorem swap_swap (hw : 8 ∣ w) (x : BitVec w) : swap (swap x) = x := by
  rw [swap, memory_swap hw, ← List.reverse_reverse (digits _ _), List.reverse_reverse]
  exact ofMemory_memory hw x

/-- The word that is swapped while it is loaded. -/
theorem toNat_swap_ofMemory {b : List UInt8} (hw : 8 ∣ w) (hb : b.length = w / 8) :
    (swap (ofMemory w b)).toNat = value b := by
  have hlt := value_lt b
  rw [hb, pow_bytes hw] at hlt
  rw [swap, memory_ofMemory hw hb, ofMemory, List.reverse_reverse, BitVec.toNat_ofNat,
    Nat.mod_eq_of_lt hlt]

/-! ### Shifts -/

theorem digits_eq_map (k n : ℕ) :
    digits k n = (List.range k).reverse.map fun i => (n >>> (8 * i) % 256).toUInt8 := by
  induction k generalizing n with
  | zero => rfl
  | succ k ih =>
      rw [digits, ih, List.range_succ_eq_map, List.reverse_cons, List.map_append,
        ← List.map_reverse, List.map_map]
      congr 1
      apply List.map_congr_left
      intro i _
      have hshift : (n / 256) >>> (8 * i) = n >>> (8 * (i + 1)) := by
        rw [show 256 = 2 ^ 8 by decide, ← Nat.shiftRight_eq_div_pow, ← Nat.shiftRight_add,
          Nat.mul_add, Nat.mul_one, Nat.add_comm 8]
      rw [Function.comp_apply, hshift]

theorem shiftOut_eq (x : BitVec w) : shiftOut x = digits (w / 8) x.toNat := by
  rw [shiftOut, digits_eq_map]
  apply List.map_congr_left
  intro i _
  apply UInt8.toNat_inj.mp
  change ((x >>> (8 * i)).setWidth 8).toNat = _
  simp

/-- Nothing is shifted out of a word that has room for all the bytes. -/
theorem toNat_shiftIn {b : List UInt8} (hb : 8 * b.length ≤ w) : (shiftIn w b).toNat = value b := by
  induction b using List.reverseRecOn with
  | nil => simp [shiftIn]
  | append_singleton b c ih =>
      rw [List.length_append, List.length_singleton] at hb
      have hlt := value_lt b
      have hc : c.toNat < 256 := c.toNat_lt
      have hw : 256 * 256 ^ b.length ≤ 2 ^ w := by
        rw [show 256 = 2 ^ 8 by decide, ← pow_mul, ← pow_add]
        exact Nat.pow_le_pow_right (by decide) (by omega)
      rw [value_concat]
      rw [shiftIn, List.foldl_append, List.foldl_cons, List.foldl_nil, ← shiftIn]
      rw [BitVec.toNat_or, BitVec.toNat_shiftLeft, ih (by omega), BitVec.toNat_setWidth,
        Nat.shiftLeft_eq, Nat.mod_eq_of_lt (by omega), Nat.mod_eq_of_lt (by
          change c.toNat < 2 ^ w
          omega), Nat.mul_comm, show 2 ^ 8 = 256 by decide]
      exact (Nat.two_pow_add_eq_or_of_lt (i := 8) hc (value b)).symm

/-! ### Signed values -/

theorem encode_toInt (hw : 8 ∣ w) (x : BitVec w) :
    encode (w / 8) x.toInt = digits (w / 8) x.toNat := by
  have hpow : (256 : ℤ) ^ (w / 8) = (2 ^ w : ℕ) := by exact_mod_cast pow_bytes hw
  rw [encode, hpow, ← BitVec.toNat_ofInt, BitVec.ofInt_toInt]

theorem decode_eq_toInt {x : BitVec w} {b : List UInt8} (hw : 8 ∣ w) (hb : b.length = w / 8)
    (hx : x.toNat = value b) : decode b = x.toInt := by
  have hpow : 256 ^ b.length = 2 ^ w := by rw [hb, pow_bytes hw]
  have hpow' : (256 : ℤ) ^ b.length = (2 ^ w : ℕ) := by exact_mod_cast hpow
  rw [decode, BitVec.toInt_eq_toNat_cond, hx, hpow, hpow']

/-- The word in memory whose swapped value is this number. -/
theorem memory_eq_encode (hw : 8 ∣ w) (x : BitVec w) :
    memory x = encode (w / 8) (swap x).toInt := by
  rw [encode_toInt hw, ← memory_swap hw, swap_swap hw]

theorem toInt_swap_ofMemory {b : List UInt8} (hw : 8 ∣ w) (hb : b.length = w / 8) :
    (swap (ofMemory w b)).toInt = decode b :=
  (decode_eq_toInt hw hb (toNat_swap_ofMemory hw hb)).symm

theorem shiftOut_eq_encode (hw : 8 ∣ w) (x : BitVec w) : shiftOut x = encode (w / 8) x.toInt := by
  rw [shiftOut_eq, encode_toInt hw]

theorem shiftIn_shiftOut (hw : 8 ∣ w) (x : BitVec w) : shiftIn w (shiftOut x) = x := by
  apply BitVec.eq_of_toNat_eq
  rw [toNat_shiftIn, shiftOut_eq, value_digits, pow_bytes hw, Nat.mod_eq_of_lt x.isLt]
  rw [shiftOut_eq, length_digits, Nat.mul_div_cancel' hw]

theorem fits_toInt (hw : 8 ∣ w) (x : BitVec w) : Fits (w / 8) x.toInt := by
  have hpow : (256 : ℤ) ^ (w / 8) = 2 ^ w := by exact_mod_cast pow_bytes hw
  rw [Fits, hpow]
  exact ⟨by simpa using BitVec.le_two_mul_toInt, by simpa using BitVec.two_mul_toInt_lt⟩

end OpBrowser.ByteOrder
