import OpBrowser.Model.ObjectStore

/-! # What the tables of the object store say

The functions of the store are known from two questions to the tables: what an object is, and
how often a permission is there. -/

namespace OpBrowser.ObjectStore

/-! ### Texts with a colon -/

section Cut

variable {name rest data : Bytes}

/-- The name in front of the first colon. -/
def nameOf (data : Bytes) : Bytes := data.takeWhile (· ≠ colon)

/-- What is behind the first colon. -/
def dataOf (data : Bytes) : Bytes := data.drop ((nameOf data).length + 1)

@[simp] theorem nameOf_cut (hname : colon ∉ name) : nameOf (name ++ colon :: rest) = name := by
  rw [nameOf, List.takeWhile_append_of_pos]
  · simp
  · intro c hc
    simpa using ne_of_mem_of_not_mem hc hname

@[simp] theorem dataOf_cut (hname : colon ∉ name) : dataOf (name ++ colon :: rest) = rest := by
  rw [dataOf, nameOf_cut hname, ← List.drop_drop, List.drop_left]
  rfl

theorem idxOf?_cut (hname : colon ∉ name) :
    (name ++ colon :: rest).idxOf? colon = some name.length := by
  rw [List.idxOf?_eq_some_iff]
  refine ⟨by simp, by simp, fun j hj heq => hname ?_⟩
  rw [List.getElem_append_left hj] at heq
  exact heq ▸ List.getElem_mem hj

/-- There is a first colon or none. -/
theorem cut_or (data : Bytes) : colon ∉ data ∨
    ∃ name rest, colon ∉ name ∧ data = name ++ colon :: rest := by
  induction data with
  | nil => exact Or.inl (List.not_mem_nil)
  | cons c data ih =>
      by_cases hc : c = colon
      · exact Or.inr ⟨[], data, List.not_mem_nil, by rw [hc]; rfl⟩
      · cases ih with
        | inl hnone => exact Or.inl (List.mem_cons.not.mpr (not_or.mpr ⟨Ne.symm hc, hnone⟩))
        | inr hcut =>
            obtain ⟨name, rest, hname, rfl⟩ := hcut
            refine Or.inr ⟨c :: name, rest, ?_, rfl⟩
            exact List.mem_cons.not.mpr (not_or.mpr ⟨Ne.symm hc, hname⟩)

end Cut

/-! ### The tables -/

namespace Db

variable {db : Db} {user u owner o : I32} {name n obj data : Bytes}

/-- The data of an object. -/
def lookup (db : Db) (owner : I32) (name : Bytes) : Option Bytes :=
  (db.objectStore.find? fun r => r.owner = owner ∧ r.name = name).map Object.data

/-- The database with a new object. -/
def put (db : Db) (owner : I32) (name obj : Bytes) : Db where
  objectStore := (db.objectStore.filter fun r => ¬ (r.owner = owner ∧ r.name = name)) ++
    [⟨owner, name, obj⟩]
  objectAcl := db.objectAcl.filter fun r => ¬ (r.owner = owner ∧ r.name = name)

theorem lookup_put : (db.put owner name obj).lookup o n =
    if o = owner ∧ n = name then some obj else db.lookup o n := by
  rw [lookup, put, List.find?_append, List.find?_filter]
  by_cases hkey : o = owner ∧ n = name
  · obtain ⟨rfl, rfl⟩ := hkey
    rw [List.find?_eq_none.mpr]
    · simp
    · intro r _ hr
      simp only [decide_eq_true_eq] at hr
      exact hr.1 hr.2
  · have hsame : ∀ r : Object, (decide (¬ (r.owner = owner ∧ r.name = name)) = true ∧
        decide (r.owner = o ∧ r.name = n) = true) ↔ (r.owner = o ∧ r.name = n) := by
      intro r
      simp only [decide_eq_true_eq, and_iff_right_iff_imp]
      rintro ⟨rfl, rfl⟩
      exact hkey
    have hlast : ¬ (owner = o ∧ name = n) := fun h => hkey ⟨h.1.symm, h.2.symm⟩
    simp only [hsame, lookup, if_neg hkey]
    simp [hlast]

theorem permissions_put : (db.put owner name obj).permissions u o n =
    if o = owner ∧ n = name then 0 else db.permissions u o n := by
  rw [permissions, put, List.countP_filter]
  by_cases hkey : o = owner ∧ n = name
  · obtain ⟨rfl, rfl⟩ := hkey
    rw [if_pos ⟨rfl, rfl⟩, List.countP_eq_zero]
    intro r _ hr
    simp only [Bool.and_eq_true, decide_eq_true_eq] at hr
    exact hr.2 hr.1.2
  · rw [if_neg hkey, permissions]
    refine List.countP_congr fun r _ => ?_
    simp only [Bool.and_eq_true, decide_eq_true_eq, and_iff_left_iff_imp]
    rintro ⟨-, rfl, rfl⟩
    exact hkey

theorem lookup_addAclUser : (db.addAclUser user owner name).lookup o n = db.lookup o n := rfl

theorem permissions_addAclUser : (db.addAclUser user owner name).permissions u o n =
    db.permissions u o n + if user = u ∧ owner = o ∧ name = n then 1 else 0 := by
  rw [permissions, addAclUser, List.countP_append]
  by_cases hkey : user = u ∧ owner = o ∧ name = n
  · simp [permissions, hkey]
  · simp [permissions, hkey]

/-! ### The functions -/

/-- How an object is sent. -/
def shown (owner : I32) (name : Bytes) : Option Bytes → Bytes
  | some obj => name ++ [colon] ++ decimal owner ++ [colon] ++ obj
  | none => []

theorem select_eq : db.select owner name = shown owner name (db.lookup owner name) := by
  rw [select, lookup]
  cases db.objectStore.find? fun r => r.owner = owner ∧ r.name = name with
  | none => rfl
  | some r => rfl

theorem hasPermission_eq : db.hasPermission user owner name =
    if db.permissions user owner name = 0 then some false
    else if db.permissions user owner name = 1 then some true else none := by
  rw [hasPermission]
  by_cases hnone : db.permissions user owner name = 0
  · simp [hnone, guard]
  · by_cases hone : db.permissions user owner name = 1
    · simp [hone, guard]
    · simp [hnone, hone, guard]

theorem storeObject_of_not (hdata : colon ∉ data) : db.storeObject owner data = none := by
  rw [storeObject, List.idxOf?_eq_none_iff.mpr hdata]
  rfl

theorem storeObject_cut (hname : colon ∉ name) : db.storeObject owner (name ++ colon :: obj) =
    if obj = [] then none else some (db.put owner name obj) := by
  have htake : (name ++ colon :: obj).take name.length = name := List.take_left
  have hdrop : (name ++ colon :: obj).drop (name.length + 1) = obj := by
    rw [← List.drop_drop, List.drop_left]
    rfl
  rw [storeObject, idxOf?_cut hname]
  simp only [Option.bind_eq_bind, Option.bind_some, htake, hdrop]
  cases obj with
  | nil => simp
  | cons c obj => simp [put]

theorem retrvObject_own (hname : colon ∉ name) :
    db.retrvObject owner name = some (shown owner name (db.lookup owner name)) := by
  rw [retrvObject, List.idxOf?_eq_none_iff.mpr hname, select_eq]

theorem retrvObject_other {ownerStr : Bytes} (hname : colon ∉ name) :
    db.retrvObject user (name ++ colon :: ownerStr) = (scanInt ownerStr).bind fun owner =>
      if db.permissions user owner name = 0 then some []
      else if db.permissions user owner name = 1 then some (shown owner name (db.lookup owner name))
      else none := by
  have htake : (name ++ colon :: ownerStr).take name.length = name := List.take_left
  have hdrop : (name ++ colon :: ownerStr).drop (name.length + 1) = ownerStr := by
    rw [← List.drop_drop, List.drop_left]
    rfl
  rw [retrvObject, idxOf?_cut hname]
  simp only [htake, hdrop]
  cases ownerStr with
  | nil => rfl
  | cons c ownerStr =>
      cases hscan : scanInt (c :: ownerStr) with
      | none => rfl
      | some owner =>
          rw [guard, if_pos (by simp), Option.bind_some]
          simp only [hasPermission_eq, select_eq]
          by_cases hnone : db.permissions user owner name = 0
          · simp [hnone]
          · by_cases hone : db.permissions user owner name = 1
            · simp [hone]
            · simp [hnone, hone]

end Db

end OpBrowser.ObjectStore
