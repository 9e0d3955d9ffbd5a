import OpBrowser.Model.CookieStore
import OpBrowser.Model.NewUrlMsg

/-! # Strings and numbers in messages

What the storage component and the user interface use of Qt besides URLs: variants that
hold strings and numbers, and strings made of numbers and bytes. -/

namespace OpBrowser

/-- Strings and numbers in variants. An `int` has 32 bits and a `qint64` has 64. -/
structure QtVariants extends Qt where
  ofString : QString → QVariant
  toString : QVariant → QString
  ofInt : ℤ → QVariant
  toInt : QVariant → ℤ
  ofLongLong : ℤ → QVariant
  toLongLong : QVariant → ℤ

/-- A variant gives back the string or number that it was made of. -/
structure QtVariants.Lawful (q : QtVariants) : Prop extends q.toQt.Lawful where
  toString_ofString : ∀ s, q.toString (q.ofString s) = s
  toInt_ofInt : ∀ n, -2 ^ 31 ≤ n → n < 2 ^ 31 → q.toInt (q.ofInt n) = n
  toLongLong_ofLongLong : ∀ n, -2 ^ 63 ≤ n → n < 2 ^ 63 → q.toLongLong (q.ofLongLong n) = n
  toLongLong_range : ∀ v, -2 ^ 63 ≤ q.toLongLong v ∧ q.toLongLong v < 2 ^ 63

namespace QString

/-- `QString::number`, for a number that is not negative. -/
def number (n : ℕ) : QString := (Nat.toDigits 10 n).map fun c => c.toNat.toUInt16

/-- `QString::fromAscii`, which reads Latin-1 up to the first NUL. -/
def fromAscii (b : Bytes) : QString := (cStr b).map UInt8.toUInt16

def dash : UInt16 := 45

def comma : UInt16 := 44

end QString

end OpBrowser
