import OpBrowser.Model.NetworkRequest
import OpBrowser.Verification.Storage.Streams

/-! # Maps as Qt streams them

A map of byte arrays is streamed as its type, the number of its entries, and keys and variants
in turn. Like a string, a map that is too long for Qt is escaped. -/

namespace OpBrowser.Streams

open BigEndian

/-! ### Entries -/

/-- A number of entries. -/
def count (n : ℕ) : Bytes :=
  if n < 2 ^ 32 - 1 then digits 4 n else tooLong ++ escape (List.replicate n 0)

def uncount (data : Bytes) : ℕ × Bytes :=
  if data.take 4 = tooLong then
    let (units, rest) := unescape (data.drop 4)
    (units.length, rest)
  else (value (data.take 4), data.drop 4)

theorem uncount_count (n : ℕ) (rest : Bytes) : uncount (count n ++ rest) = (n, rest) := by
  by_cases hn : n < 2 ^ 32 - 1
  · rw [count, if_pos hn, uncount, take_digits, drop_digits, if_neg (short_ne_tooLong hn),
      value_short hn]
  · have hescape := unescape_escape (List.replicate n 0) rest
    rw [count, if_neg hn, uncount, List.append_assoc]
    have htake : (tooLong ++ (escape (List.replicate n 0) ++ rest)).take 4 = tooLong := rfl
    have hdrop : (tooLong ++ (escape (List.replicate n 0) ++ rest)).drop 4 =
        escape (List.replicate n 0) ++ rest := rfl
    rw [if_pos htake, hdrop, hescape]
    simp

def writeEntry (entry : QString × Bytes) : Bytes :=
  frame (bytesOf entry.1) ++ (Variant.byteArray entry.2).write

def readEntries : ℕ → Bytes → List (QString × Bytes) × Bytes
  | 0, data => ([], data)
  | n + 1, data =>
      let (key, data) := unframe data
      let (var, data) := Variant.read data
      let (entries, rest) := readEntries n data
      ((unitsOf key, variants.toByteArray var) :: entries, rest)

theorem readEntries_writeEntry (entries : List (QString × Bytes)) (rest : Bytes) :
    readEntries entries.length (entries.flatMap writeEntry ++ rest) = (entries, rest) := by
  induction entries with
  | nil => rfl
  | cons entry entries ih =>
      have hsplit : (entry :: entries).flatMap writeEntry ++ rest = frame (bytesOf entry.1) ++
          ((Variant.byteArray entry.2).write ++ (entries.flatMap writeEntry ++ rest)) := by
        simp [writeEntry]
      rw [hsplit, List.length_cons, readEntries, unframe_frame]
      dsimp only
      rw [Variant.read_write]
      dsimp only
      rw [ih, unitsOf_bytesOf]
      rfl

/-! ### Variants with maps -/

/-- A variant, which may also be a map of byte arrays. -/
inductive MapVariant where
  | plain (v : Variant)
  | map (headers : OrdMap QString Bytes)

namespace MapVariant

/-- What a map is as any other type. -/
def value : MapVariant → Variant
  | plain v => v
  | map _ => .invalid

def write : MapVariant → Bytes
  | plain v => v.write
  | map headers =>
      [0, 0, 0, 8, 0] ++ (count headers.toList.length ++ headers.toList.flatMap writeEntry)

def read (data : Bytes) : MapVariant × Bytes :=
  if data.take 5 = [0, 0, 0, 8, 0] then
    let (n, data) := uncount (data.drop 5)
    let (entries, rest) := readEntries n data
    (map (Std.ExtTreeMap.ofList entries), rest)
  else
    let (v, rest) := Variant.read data
    (plain v, rest)

theorem read_write (v : MapVariant) (rest : Bytes) : read (v.write ++ rest) = (v, rest) := by
  cases v with
  | plain v =>
      have htype : (v.write ++ rest).take 5 ≠ [0, 0, 0, 8, 0] := by
        cases v <;> simp [Variant.write]
      rw [write, read, if_neg htype, Variant.read_write]
  | map headers =>
      rw [write, read, List.append_assoc]
      have htake : ([0, 0, 0, 8, 0] ++ (count headers.toList.length ++
          headers.toList.flatMap writeEntry ++ rest)).take 5 = [0, 0, 0, 8, 0] := rfl
      have hdrop : ([0, 0, 0, 8, 0] ++ (count headers.toList.length ++
          headers.toList.flatMap writeEntry ++ rest)).drop 5 =
          count headers.toList.length ++ headers.toList.flatMap writeEntry ++ rest := rfl
      rw [if_pos htake, hdrop, List.append_assoc, uncount_count]
      dsimp only
      rw [readEntries_writeEntry]
      dsimp only
      rw [OrdMap.ofList_toList]

theorem map_byteArrays {headers : OrdMap QString MapVariant}
    (h : ∀ header ∈ headers.toList, ∃ b, header.2 = plain (.byteArray b)) :
    (headers.map fun _ var => variants.toByteArray var.value).map
      (fun _ b => plain (.byteArray b)) = headers := by
  refine Std.ExtTreeMap.ext_getElem? fun k => ?_
  rw [Std.ExtTreeMap.getElem?_map, Std.ExtTreeMap.getElem?_map]
  cases hk : headers[k]? with
  | none => rfl
  | some var =>
      obtain ⟨b, rfl⟩ := h (k, var) (OrdMap.mem_toList.mpr hk)
      rfl

end MapVariant

/-- Qt as far as requests need it. -/
def maps : QtMaps where
  QUrl := Bytes
  QVariant := MapVariant
  isEmpty := variants.isEmpty
  toLatin1 := variants.toLatin1
  fromText := variants.fromText
  invalid := .plain variants.invalid
  ofUrl u := .plain (variants.ofUrl u)
  toUrl v := variants.toUrl v.value
  ofByteArray b := .plain (variants.ofByteArray b)
  toByteArray v := variants.toByteArray v.value
  write := MapVariant.write
  read := MapVariant.read
  ofString s := .plain (variants.ofString s)
  toString v := variants.toString v.value
  ofInt n := .plain (variants.ofInt n)
  toInt v := variants.toInt v.value
  ofLongLong n := .plain (variants.ofLongLong n)
  toLongLong v := variants.toLongLong v.value
  ofMap headers := .map (headers.map fun _ var => variants.toByteArray var.value)
  toMap
    | .map headers => headers.map fun _ b => .plain (variants.ofByteArray b)
    | .plain _ => ∅

theorem maps_lawful : maps.Lawful where
  read_write := MapVariant.read_write
  write_ne v := by
    cases v with
    | plain v => exact variants_lawful.write_ne v
    | map headers => exact List.cons_ne_nil _ _
  toUrl_ofUrl := variants_lawful.toUrl_ofUrl
  toByteArray_ofByteArray := variants_lawful.toByteArray_ofByteArray
  toString_ofString := variants_lawful.toString_ofString
  toInt_ofInt n hlo hhi := by
    dsimp only [maps, MapVariant.value]
    exact variants_lawful.toInt_ofInt n hlo hhi
  toLongLong_ofLongLong n hlo hhi := by
    dsimp only [maps, MapVariant.value]
    exact variants_lawful.toLongLong_ofLongLong n hlo hhi
  toLongLong_range v := variants_lawful.toLongLong_range v.value
  toMap_ofMap _ := MapVariant.map_byteArrays

end OpBrowser.Streams
