import OpBrowser.Model.ReplyMetaData
import OpBrowser.Verification.Network.MapStreams

/-! # Lists as Qt streams them

A list is streamed as its type, the number of its variants, and the variants. Only lists of
variants that hold no lists or maps themselves are needed. -/

namespace OpBrowser.Streams

/-! ### The variants in a list -/

inductive Single where
  | value (v : Variant)
  | bool (b : Bool)

namespace Single

def write : Single → Bytes
  | value v => v.write
  | bool b => [0, 0, 0, 1, 0, if b then 1 else 0]

def read (data : Bytes) : Single × Bytes :=
  if data.take 5 = [0, 0, 0, 1, 0] then (bool ((data.drop 5).take 1 = [1]), data.drop 6)
  else
    let (v, rest) := Variant.read data
    (value v, rest)

theorem read_write (v : Single) (rest : Bytes) : read (v.write ++ rest) = (v, rest) := by
  cases v with
  | value v =>
      have htype : (v.write ++ rest).take 5 ≠ [0, 0, 0, 1, 0] := by
        cases v <;> simp [Variant.write]
      rw [write, read, if_neg htype, Variant.read_write]
  | bool b => cases b <;> rfl

def readAll : ℕ → Bytes → List Single × Bytes
  | 0, data => ([], data)
  | n + 1, data =>
      let (v, data) := read data
      let (l, rest) := readAll n data
      (v :: l, rest)

theorem readAll_write (l : List Single) (rest : Bytes) :
    readAll l.length (l.flatMap write ++ rest) = (l, rest) := by
  induction l with
  | nil => rfl
  | cons v l ih =>
      rw [List.flatMap_cons, List.append_assoc, List.length_cons, readAll, read_write]
      dsimp only
      rw [ih]

end Single

/-! ### Variants with lists -/

/-- A variant, which may also be a list. -/
inductive ListVariant where
  | other (v : MapVariant)
  | bool (b : Bool)
  | list (l : List Single)

namespace ListVariant

/-- What a list is as any other type. -/
def value : ListVariant → MapVariant
  | other v => v
  | _ => .plain .invalid

/-- The variant in a list. -/
def single : ListVariant → Single
  | other v => .value v.value
  | bool b => .bool b
  | list _ => .value .invalid

def ofSingle : Single → ListVariant
  | .value v => other (.plain v)
  | .bool b => bool b

def isContainer : ListVariant → Bool
  | other (.plain _) => false
  | bool _ => false
  | _ => true

def write : ListVariant → Bytes
  | other v => v.write
  | bool b => (Single.bool b).write
  | list l => [0, 0, 0, 9, 0] ++ (count l.length ++ l.flatMap Single.write)

def read (data : Bytes) : ListVariant × Bytes :=
  if data.take 5 = [0, 0, 0, 9, 0] then
    let (n, data) := uncount (data.drop 5)
    let (l, rest) := Single.readAll n data
    (list l, rest)
  else if data.take 5 = [0, 0, 0, 1, 0] then
    let (v, rest) := Single.read data
    (ofSingle v, rest)
  else
    let (v, rest) := MapVariant.read data
    (other v, rest)

theorem read_write (v : ListVariant) (rest : Bytes) : read (v.write ++ rest) = (v, rest) := by
  cases v with
  | other v =>
      have htype : (v.write ++ rest).take 5 ≠ [0, 0, 0, 9, 0] ∧
          (v.write ++ rest).take 5 ≠ [0, 0, 0, 1, 0] := by
        cases v with
        | plain v => cases v <;> simp [MapVariant.write, Variant.write]
        | map headers => simp [MapVariant.write]
      rw [write, read, if_neg htype.1, if_neg htype.2, MapVariant.read_write]
  | bool b =>
      have hread := Single.read_write (.bool b) rest
      rw [write, read, if_neg (by simp [Single.write]), if_pos (by simp [Single.write]), hread]
      rfl
  | list l =>
      rw [write, read, List.append_assoc]
      have htake : ([0, 0, 0, 9, 0] ++ (count l.length ++ l.flatMap Single.write ++ rest)).take 5 =
          [0, 0, 0, 9, 0] := rfl
      have hdrop : ([0, 0, 0, 9, 0] ++ (count l.length ++ l.flatMap Single.write ++ rest)).drop 5 =
          count l.length ++ l.flatMap Single.write ++ rest := rfl
      rw [if_pos htake, hdrop, List.append_assoc, uncount_count]
      dsimp only
      rw [Single.readAll_write]

theorem ofSingle_single {v : ListVariant} (h : v.isContainer = false) : ofSingle v.single = v := by
  cases v with
  | other v =>
      cases v with
      | plain v => rfl
      | map headers => cases h
  | bool b => rfl
  | list l => cases h

theorem map_single {l : List ListVariant} (h : ∀ v ∈ l, v.isContainer = false) :
    (l.map single).map ofSingle = l := by
  rw [List.map_map]
  exact (List.map_congr_left fun v hv => ofSingle_single (h v hv)).trans (List.map_id' l)

theorem map_byteArrays {headers : OrdMap QString ListVariant}
    (h : ∀ header ∈ headers.toList, ∃ b, header.2 = other (.plain (.byteArray b))) :
    (headers.map fun _ var => variants.toByteArray var.value.value).map
      (fun _ b => other (.plain (.byteArray b))) = headers := by
  refine Std.ExtTreeMap.ext_getElem? fun k => ?_
  rw [Std.ExtTreeMap.getElem?_map, Std.ExtTreeMap.getElem?_map]
  cases hk : headers[k]? with
  | none => rfl
  | some var =>
      obtain ⟨b, rfl⟩ := h (k, var) (OrdMap.mem_toList.mpr hk)
      rfl

end ListVariant

/-- Qt as far as responses need it. -/
def lists : QtLists where
  QUrl := Bytes
  QVariant := ListVariant
  isEmpty := maps.isEmpty
  toLatin1 := maps.toLatin1
  fromText := maps.fromText
  invalid := .other maps.invalid
  ofUrl u := .other (maps.ofUrl u)
  toUrl v := maps.toUrl v.value
  ofByteArray b := .other (maps.ofByteArray b)
  toByteArray v := maps.toByteArray v.value
  write := ListVariant.write
  read := ListVariant.read
  ofString s := .other (maps.ofString s)
  toString v := maps.toString v.value
  ofInt n := .other (maps.ofInt n)
  toInt v := maps.toInt v.value
  ofLongLong n := .other (maps.ofLongLong n)
  toLongLong v := maps.toLongLong v.value
  ofMap headers := .other (.map (headers.map fun _ var => variants.toByteArray var.value.value))
  toMap
    | .other (.map headers) => headers.map fun _ b => .other (.plain (variants.ofByteArray b))
    | _ => ∅
  isContainer := ListVariant.isContainer
  ofList l := .list (l.map ListVariant.single)
  toList
    | .list l => l.map ListVariant.ofSingle
    | _ => []

theorem lists_lawful : lists.Lawful where
  read_write := ListVariant.read_write
  write_ne v := by
    cases v with
    | other v => exact maps_lawful.write_ne v
    | bool b => exact List.cons_ne_nil _ _
    | list l => exact List.cons_ne_nil _ _
  toUrl_ofUrl := maps_lawful.toUrl_ofUrl
  toByteArray_ofByteArray := maps_lawful.toByteArray_ofByteArray
  toString_ofString := maps_lawful.toString_ofString
  toInt_ofInt n hlo hhi := by
    dsimp only [lists, ListVariant.value]
    exact maps_lawful.toInt_ofInt n hlo hhi
  toLongLong_ofLongLong n hlo hhi := by
    dsimp only [lists, ListVariant.value]
    exact maps_lawful.toLongLong_ofLongLong n hlo hhi
  toLongLong_range v := maps_lawful.toLongLong_range v.value
  toMap_ofMap _ := ListVariant.map_byteArrays
  toList_ofList _ := ListVariant.map_single

end OpBrowser.Streams
