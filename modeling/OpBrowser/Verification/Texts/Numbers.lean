import OpBrowser.Library.Digits
import OpBrowser.Model.Bytes
import Mathlib.Data.List.Basic

/-! # Numbers in the data of messages

What `sprintf` and `QByteArray::number` write and `atoi` reads. -/

namespace OpBrowser

theorem toNat_byte {c : Char} (h : c.toNat ≤ 57) : (byte c).toNat = c.toNat := by
  refine UInt8.toNat_ofNat_of_lt' (Nat.lt_of_le_of_lt h ?_)
  decide

theorem minus_notMem_digits (n : ℕ) : byte '-' ∉ (Nat.toDigits 10 n).map byte := by
  intro h
  obtain ⟨c, hc, heq⟩ := List.mem_map.1 h
  obtain ⟨hlo, hhi⟩ := Digits.toNat_of_mem_toDigits hc
  have hbyte := toNat_byte hhi
  rw [heq] at hbyte
  rw [← hbyte] at hlo
  exact absurd hlo (by decide)

theorem digits_injective : Function.Injective fun n => (Nat.toDigits 10 n).map byte := by
  refine Digits.map_toDigits_injective _ (fun u => Char.ofNat u.toNat) fun c _ hc => ?_
  rw [toNat_byte hc, Char.ofNat_toNat]

theorem decimal_injective : Function.Injective decimal := by
  intro m n h
  rw [decimal, decimal] at h
  split at h <;> split at h
  · have habs := digits_injective (List.append_cancel_left h)
    omega
  · have hmem : byte '-' ∈ (Nat.toDigits 10 n.natAbs).map byte := by
      rw [List.nil_append] at h
      rw [← h]
      exact List.mem_cons_self
    exact absurd hmem (minus_notMem_digits _)
  · have hmem : byte '-' ∈ (Nat.toDigits 10 m.natAbs).map byte := by
      rw [List.nil_append] at h
      rw [h]
      exact List.mem_cons_self
    exact absurd hmem (minus_notMem_digits _)
  · have habs := digits_injective (List.append_cancel_left h)
    omega

theorem decimal_unit {n : ℤ} {b : UInt8} (h : b ∈ decimal n) :
    b = byte '-' ∨ 48 ≤ b.toNat ∧ b.toNat ≤ 57 := by
  rw [decimal, List.mem_append] at h
  obtain h | h := h
  · split at h
    · exact Or.inl (List.mem_singleton.1 h)
    · cases h
  · obtain ⟨c, hc, rfl⟩ := List.mem_map.1 h
    have hrange := Digits.toNat_of_mem_toDigits hc
    rw [toNat_byte hrange.2]
    exact Or.inr hrange

theorem notMem_decimal {n : ℤ} {b : UInt8} (hminus : b ≠ byte '-') (h : b.toNat < 48) :
    b ∉ decimal n := by
  intro hmem
  obtain rfl | hrange := decimal_unit hmem
  · exact hminus rfl
  · omega

theorem isDigit_byte {n : ℕ} {c : Char} (h : c ∈ Nat.toDigits 10 n) :
    isDigit (byte c) = true ∧ (byte c).toNat = c.toNat := by
  obtain ⟨hlo, hhi⟩ := Digits.toNat_of_mem_toDigits h
  refine ⟨?_, toNat_byte hhi⟩
  rw [isDigit, decide_eq_true_iff, UInt8.le_iff_toNat_le, UInt8.le_iff_toNat_le, toNat_byte hhi]
  exact ⟨hlo, hhi⟩

theorem value_digits (n : ℕ) :
    (((Nat.toDigits 10 n).map byte).takeWhile isDigit).foldl
      (fun n c => 10 * n + (c.toNat - 48)) 0 = n := by
  have hdigits : ((Nat.toDigits 10 n).map byte).takeWhile isDigit =
      (Nat.toDigits 10 n).map byte := by
    rw [List.takeWhile_eq_self_iff]
    intro b hb
    obtain ⟨c, hc, rfl⟩ := List.mem_map.1 hb
    exact (isDigit_byte hc).1
  rw [hdigits, List.foldl_map]
  conv_rhs => rw [← Nat.ofDigitChars_ten_toDigits (n := n), Nat.ofDigitChars_eq_foldl]
  refine List.foldl_ext _ _ _ fun m c hc => ?_
  rw [(isDigit_byte hc).2]
  rfl

theorem isSpace_of_isDigit {b : UInt8} (h : isDigit b = true) : isSpace b = false := by
  rw [isDigit, decide_eq_true_iff] at h
  rw [isSpace, Bool.or_eq_false_iff, decide_eq_false_iff_not, decide_eq_false_iff_not]
  constructor
  · rintro rfl
    exact absurd h (by decide)
  · rintro ⟨-, hle⟩
    exact absurd (UInt8.le_trans h.1 hle) (by decide)

theorem cStr_decimal (n : ℤ) : cStr (decimal n) = decimal n :=
  cStr_of_no_nul (notMem_decimal (by decide) (by decide))

/-- `atoi` reads back what `sprintf` wrote. -/
theorem atoi_decimal {n : ℤ} (hlo : -2 ^ 31 ≤ n) (hhi : n < 2 ^ 31) : atoi (decimal n) = n := by
  rw [atoi, cStr_decimal, decimal]
  by_cases hneg : n < 0
  · have hspace : ([byte '-'] ++ (Nat.toDigits 10 n.natAbs).map byte).dropWhile isSpace =
        45 :: (Nat.toDigits 10 n.natAbs).map byte := rfl
    rw [if_pos hneg, hspace]
    split
    · rename_i heq
      rw [← List.tail_eq_of_cons_eq heq]
      dsimp only
      rw [value_digits, wrap32_of_range] <;> omega
    · rename_i heq
      exact absurd (List.head_eq_of_cons_eq heq) (by decide)
    · rename_i hminus _
      exact absurd rfl (hminus _)
  · have hne : Nat.toDigits 10 n.natAbs ≠ [] := Nat.toDigits_ne_nil
    obtain ⟨d, ds, hdigits⟩ := List.exists_cons_of_ne_nil hne
    have hd := (isDigit_byte (c := d) (n := n.natAbs) (by rw [hdigits]; exact List.mem_cons_self)).1
    have hvalue := value_digits n.natAbs
    rw [if_neg hneg, List.nil_append]
    rw [hdigits, List.map_cons] at hvalue ⊢
    rw [List.dropWhile_cons_of_neg (by simp [isSpace_of_isDigit hd])]
    split
    · rename_i heq
      rw [List.head_eq_of_cons_eq heq] at hd
      exact absurd hd (by decide)
    · rename_i heq
      rw [List.head_eq_of_cons_eq heq] at hd
      exact absurd hd (by decide)
    · dsimp only
      rw [hvalue, wrap32_of_range] <;> omega

end OpBrowser
