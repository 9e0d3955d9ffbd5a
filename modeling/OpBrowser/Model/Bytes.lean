import Mathlib.Algebra.Order.Ring.Int
import Mathlib.Data.List.TakeWhile
import Mathlib.Tactic.Common

/-! # Byte strings and the C library functions over them

`std::string` and `QByteArray` contents are lists of bytes. -/

namespace OpBrowser

abbrev Bytes := List UInt8

/-- The bytes of an ASCII literal of the source. -/
def bytes (s : String) : Bytes :=
  s.toList.map fun c => c.toNat.toUInt8

/-- The byte of a character literal of the source. -/
def byte (c : Char) : UInt8 := c.toNat.toUInt8

/-- What a `const char *` over this buffer shows: everything before the first NUL. -/
def cStr (a : Bytes) : Bytes := a.takeWhile (· != 0)

/-- `::tolower` in the C locale. -/
def toLower (c : UInt8) : UInt8 :=
  if byte 'A' ≤ c ∧ c ≤ byte 'Z' then c + 32 else c

def isDigit (c : UInt8) : Bool := byte '0' ≤ c ∧ c ≤ byte '9'

/-- A word character or a digit, as `\w` and `\d` have it in the C locale. -/
def isWord (c : UInt8) : Bool :=
  isDigit c || (byte 'a' ≤ c ∧ c ≤ byte 'z') || (byte 'A' ≤ c ∧ c ≤ byte 'Z') || c = byte '_'

def isSpace (c : UInt8) : Bool := c = byte ' ' || (9 ≤ c ∧ c ≤ 13)

/-- The two's complement value of the low 32 bits. -/
def wrap32 (n : ℤ) : ℤ := (n + 2 ^ 31) % 2 ^ 32 - 2 ^ 31

/-- `atoi`: blanks, an optional sign and digits; `strtol` saturates at 64 bits
and the conversion to `int` keeps the low 32. -/
def atoi (a : Bytes) : ℤ :=
  let value (ds : Bytes) : ℕ :=
    (ds.takeWhile isDigit).foldl (fun n c => 10 * n + (c.toNat - 48)) 0
  wrap32 <| match (cStr a).dropWhile isSpace with
    | 45 :: ds => max (-(value ds : ℤ)) (-2 ^ 63)
    | 43 :: ds => min (value ds : ℤ) (2 ^ 63 - 1)
    | ds => min (value ds : ℤ) (2 ^ 63 - 1)

/-- `sprintf(str, "%d", n)`. -/
def decimal (n : ℤ) : Bytes :=
  (if n < 0 then [byte '-'] else []) ++
    (Nat.toDigits 10 n.natAbs).map byte

@[simp] theorem cStr_of_no_nul {a : Bytes} (h : (0 : UInt8) ∉ a) : cStr a = a := by
  rw [cStr, List.takeWhile_eq_self_iff]
  intro c hc
  simpa using ne_of_mem_of_not_mem hc h

theorem cStr_append_nul {a : Bytes} (h : (0 : UInt8) ∉ a) (rest : Bytes) :
    cStr (a ++ 0 :: rest) = a := by
  rw [cStr, List.takeWhile_append_of_pos]
  · simp
  · intro c hc
    simpa using ne_of_mem_of_not_mem hc h

theorem no_nul_cStr (a : Bytes) : (0 : UInt8) ∉ cStr a := by
  intro h
  simpa using List.mem_takeWhile_imp h

theorem wrap32_of_range {n : ℤ} (hlo : -2 ^ 31 ≤ n) (hhi : n < 2 ^ 31) : wrap32 n = n := by
  rw [wrap32]
  omega

example : atoi (bytes " -12x") = -12 := by decide

end OpBrowser
