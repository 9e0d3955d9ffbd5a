import OpBrowser.Library.BigEndian
import OpBrowser.Model.Variants

/-! # Variants as Qt streams them

Strings and numbers as `QDataStream` writes them: a type number, a null flag and the value.
A string of 2^32 - 1 bytes or more, which Qt does not have, is escaped, so that the format
has no bound. -/

namespace OpBrowser.Streams

open BigEndian

/-! ### Framed bytes -/

/-- Every byte behind a one, and a zero at the end. -/
def escape : Bytes → Bytes
  | [] => [0]
  | c :: b => 1 :: c :: escape b

def unescape : Bytes → Bytes × Bytes
  | 1 :: c :: data => let (b, rest) := unescape data; (c :: b, rest)
  | _ :: data => ([], data)
  | [] => ([], [])

def tooLong : Bytes := [255, 255, 255, 255]

/-- The bytes behind their number. -/
def frame (b : Bytes) : Bytes :=
  if b.length < 2 ^ 32 - 1 then digits 4 b.length ++ b else tooLong ++ escape b

def unframe (data : Bytes) : Bytes × Bytes :=
  if data.take 4 = tooLong then unescape (data.drop 4)
  else (data.drop 4).splitAt (value (data.take 4))

theorem unescape_escape (b rest : Bytes) : unescape (escape b ++ rest) = (b, rest) := by
  induction b with
  | nil => rfl
  | cons c b ih =>
      rw [escape, List.cons_append, List.cons_append, unescape, ih]

theorem take_digits (n : ℕ) (rest : Bytes) : (digits 4 n ++ rest).take 4 = digits 4 n :=
  List.take_left' (length_digits 4 n)

theorem drop_digits (n : ℕ) (rest : Bytes) : (digits 4 n ++ rest).drop 4 = rest :=
  List.drop_left' (length_digits 4 n)

theorem value_short {n : ℕ} (h : n < 2 ^ 32 - 1) : value (digits 4 n) = n := by
  rw [value_digits, Nat.mod_eq_of_lt (by omega)]

/-- No short number is taken for an escape. -/
theorem short_ne_tooLong {n : ℕ} (h : n < 2 ^ 32 - 1) : digits 4 n ≠ tooLong := by
  intro heq
  have hvalue := value_short h
  have hlong : value tooLong = 2 ^ 32 - 1 := by decide
  rw [heq] at hvalue
  omega

theorem unframe_frame (b rest : Bytes) : unframe (frame b ++ rest) = (b, rest) := by
  by_cases hb : b.length < 2 ^ 32 - 1
  · rw [frame, if_pos hb, unframe, List.append_assoc, take_digits, drop_digits,
      if_neg (short_ne_tooLong hb), value_short hb, List.splitAt_eq, List.take_left, List.drop_left]
  · rw [frame, if_neg hb, unframe]
    exact unescape_escape b rest

/-! ### Strings -/

/-- The units with their high bytes first. -/
def bytesOf (s : QString) : Bytes := s.flatMap fun u => [(u.toNat / 256).toUInt8, u.toNat.toUInt8]

def unitsOf : Bytes → QString
  | hi :: lo :: b => (256 * hi.toNat + lo.toNat).toUInt16 :: unitsOf b
  | _ => []

theorem unitsOf_bytesOf (s : QString) : unitsOf (bytesOf s) = s := by
  induction s with
  | nil => rfl
  | cons u s ih =>
      rw [bytesOf, List.flatMap_cons, List.cons_append, List.cons_append, List.nil_append, unitsOf,
        ← bytesOf, ih]
      refine congrArg (· :: s) (UInt16.toNat_inj.1 ?_)
      have hu : u.toNat < 65536 := u.toNat_lt
      simp
      omega

/-! ### Variants -/

inductive Variant where
  | invalid
  | int (n : ℤ) (fits : Fits 4 n)
  | longLong (n : ℤ) (fits : Fits 8 n)
  | string (s : QString)
  | byteArray (b : Bytes)
  | url (b : Bytes)

namespace Variant

/-- The low 32 bits. -/
def ofInt (n : ℤ) : Variant := int (decode (encode 4 n)) (by simpa using fits_decode (encode 4 n))

/-- The low 64 bits. -/
def ofLongLong (n : ℤ) : Variant :=
  longLong (decode (encode 8 n)) (by simpa using fits_decode (encode 8 n))

/-- The number in a variant, of either type. -/
def number : Variant → ℤ
  | int n _ => n
  | longLong n _ => n
  | _ => 0

def toInt (v : Variant) : ℤ := wrap32 v.number

def write : Variant → Bytes
  | invalid => [0, 0, 0, 0, 1]
  | int n _ => [0, 0, 0, 2, 0] ++ encode 4 n
  | longLong n _ => [0, 0, 0, 4, 0] ++ encode 8 n
  | string s => [0, 0, 0, 10, 0] ++ frame (bytesOf s)
  | byteArray b => [0, 0, 0, 12, 0] ++ frame b
  | url b => [0, 0, 0, 17, 0] ++ frame b

def read (data : Bytes) : Variant × Bytes :=
  let value := data.drop 5
  match data.take 4 with
  | [0, 0, 0, 2] => (ofInt (decode (value.take 4)), value.drop 4)
  | [0, 0, 0, 4] => (ofLongLong (decode (value.take 8)), value.drop 8)
  | [0, 0, 0, 10] => (string (unitsOf (unframe value).1), (unframe value).2)
  | [0, 0, 0, 12] => (byteArray (unframe value).1, (unframe value).2)
  | [0, 0, 0, 17] => (url (unframe value).1, (unframe value).2)
  | _ => (invalid, value)

theorem ofInt_of_fits {n : ℤ} (h : Fits 4 n) : ofInt n = int n h := by
  simp only [ofInt, decode_encode h]

theorem ofLongLong_of_fits {n : ℤ} (h : Fits 8 n) : ofLongLong n = longLong n h := by
  simp only [ofLongLong, decode_encode h]

theorem toInt_ofInt (n : ℤ) (hlo : -2 ^ 31 ≤ n) (hhi : n < 2 ^ 31) : (ofInt n).toInt = n := by
  have hfits : Fits 4 n := by unfold Fits; omega
  rw [ofInt_of_fits hfits, toInt, number, wrap32]
  omega

theorem number_ofLongLong (n : ℤ) (hlo : -2 ^ 63 ≤ n) (hhi : n < 2 ^ 63) :
    (ofLongLong n).number = n := by
  have hfits : Fits 8 n := by unfold Fits; omega
  rw [ofLongLong_of_fits hfits, number]

theorem read_write (v : Variant) (rest : Bytes) : read (v.write ++ rest) = (v, rest) := by
  cases v with
  | invalid => rfl
  | int n fits =>
      have htake : (encode 4 n ++ rest).take 4 = encode 4 n :=
        List.take_left' (length_encode 4 n)
      have hdrop : (encode 4 n ++ rest).drop 4 = rest := List.drop_left' (length_encode 4 n)
      simp [read, write, htake, hdrop, decode_encode fits, ofInt_of_fits fits]
  | longLong n fits =>
      have htake : (encode 8 n ++ rest).take 8 = encode 8 n :=
        List.take_left' (length_encode 8 n)
      have hdrop : (encode 8 n ++ rest).drop 8 = rest := List.drop_left' (length_encode 8 n)
      simp [read, write, htake, hdrop, decode_encode fits, ofLongLong_of_fits fits]
  | string s => simp [read, write, unframe_frame, unitsOf_bytesOf]
  | byteArray b => simp [read, write, unframe_frame]
  | url b => simp [read, write, unframe_frame]

theorem number_range (v : Variant) : -2 ^ 63 ≤ v.number ∧ v.number < 2 ^ 63 := by
  cases v with
  | int n fits => unfold Fits at fits; simp only [number]; omega
  | longLong n fits => unfold Fits at fits; simp only [number]; omega
  | _ => simp [number]

end Variant

/-- Qt as far as strings, numbers, byte arrays and plain URLs go. -/
def variants : QtVariants where
  QUrl := Bytes
  QVariant := Variant
  isEmpty u := u.isEmpty
  toLatin1 u := u
  fromText b := b
  invalid := .invalid
  ofUrl := .url
  toUrl | .url b => b | _ => []
  ofByteArray := .byteArray
  toByteArray | .byteArray b => b | _ => []
  write := Variant.write
  read := Variant.read
  ofString := .string
  toString | .string s => s | .byteArray b => QString.fromAscii b | _ => []
  ofInt := .ofInt
  toInt := Variant.toInt
  ofLongLong := .ofLongLong
  toLongLong := Variant.number

theorem variants_lawful : variants.Lawful where
  read_write := Variant.read_write
  write_ne v := by cases v <;> exact List.cons_ne_nil _ _
  toUrl_ofUrl _ := rfl
  toByteArray_ofByteArray _ := rfl
  toString_ofString _ := rfl
  toInt_ofInt n hlo hhi := by
    dsimp only [variants]
    exact Variant.toInt_ofInt n hlo hhi
  toLongLong_ofLongLong n hlo hhi := by
    dsimp only [variants]
    exact Variant.number_ofLongLong n hlo hhi
  toLongLong_range := Variant.number_range

end OpBrowser.Streams
