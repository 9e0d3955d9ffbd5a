import Mathlib.Logic.Function.Basic
import Mathlib.Tactic.Common

/-! # Texts of numbers

A number is known from its decimal digits, in whatever units they are written. -/

namespace OpBrowser.Digits

theorem toNat_of_mem_toDigits {n : ℕ} {c : Char} (h : c ∈ Nat.toDigits 10 n) :
    48 ≤ c.toNat ∧ c.toNat ≤ 57 := by
  have hdigit := Nat.isDigit_of_mem_toDigits (by omega) (by omega) h
  rw [Char.isDigit, Bool.and_eq_true, decide_eq_true_eq, decide_eq_true_eq] at hdigit
  exact ⟨UInt32.le_iff_toNat_le.1 hdigit.1, UInt32.le_iff_toNat_le.1 hdigit.2⟩

/-- Units that give the digits back tell numbers apart. -/
theorem map_toDigits_injective {α : Type*} (unit : Char → α) (back : α → Char)
    (h : ∀ c : Char, 48 ≤ c.toNat → c.toNat ≤ 57 → back (unit c) = c) :
    Function.Injective fun n => (Nat.toDigits 10 n).map unit := by
  have hback : ∀ n, ((Nat.toDigits 10 n).map unit).map back = Nat.toDigits 10 n := by
    intro n
    rw [List.map_map]
    nth_rewrite 2 [← List.map_id (Nat.toDigits 10 n)]
    refine List.map_congr_left fun c hc => ?_
    obtain ⟨hlo, hhi⟩ := toNat_of_mem_toDigits hc
    exact h c hlo hhi
  intro m n heq
  have hdigits : Nat.toDigits 10 m = Nat.toDigits 10 n := by
    rw [← hback m, ← hback n]
    exact congrArg (List.map back) heq
  rw [← Nat.ofDigitChars_ten_toDigits (n := m), hdigits, Nat.ofDigitChars_ten_toDigits]

end OpBrowser.Digits
