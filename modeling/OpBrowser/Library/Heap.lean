import Std.Data.ExtTreeMap
import Mathlib.Tactic.Common

/-! # Ordered maps and heaps

A heap hands out addresses that it never gives again, so a dangling address is
one that stopped being bound. -/

namespace OpBrowser

/-- Finite maps ordered by their keys, equal when they have the same bindings. -/
abbrev OrdMap (κ : Type*) (ν : Type*) [Ord κ] := Std.ExtTreeMap κ ν

section OrdMap

variable {κ ν : Type*} [Ord κ] [Std.TransOrd κ] [Std.LawfulEqOrd κ]

@[simp] theorem OrdMap.getElem?_insert [DecidableEq κ] (m : OrdMap κ ν) (k k' : κ) (v : ν) :
    (Std.ExtTreeMap.insert m k v)[k']? = if k = k' then some v else m[k']? := by
  simp [Std.ExtTreeMap.getElem?_insert]

@[simp] theorem OrdMap.getElem?_erase [DecidableEq κ] (m : OrdMap κ ν) (k k' : κ) :
    (Std.ExtTreeMap.erase m k)[k']? = if k = k' then none else m[k']? := by
  simp [Std.ExtTreeMap.getElem?_erase]

theorem OrdMap.mem_insert {m : OrdMap κ ν} {k k' : κ} {v : ν} :
    k' ∈ Std.ExtTreeMap.insert m k v ↔ k = k' ∨ k' ∈ m := by
  simp

theorem OrdMap.mem_erase {m : OrdMap κ ν} {k k' : κ} :
    k' ∈ Std.ExtTreeMap.erase m k ↔ k ≠ k' ∧ k' ∈ m := by
  simp

omit [Std.LawfulEqOrd κ] in
theorem OrdMap.exists_mem {m : OrdMap κ ν} (h : m.isEmpty = false) : ∃ k, k ∈ m := by
  by_contra hnone
  rw [Std.ExtTreeMap.isEmpty_eq_false_iff, Std.ExtTreeMap.eq_empty_iff_forall_not_mem] at h
  exact h fun k hk => hnone ⟨k, hk⟩

omit [Std.LawfulEqOrd κ] in
theorem OrdMap.isEmpty_eq_false {m : OrdMap κ ν} {k : κ} (h : k ∈ m) : m.isEmpty = false := by
  rw [Std.ExtTreeMap.isEmpty_eq_false_iff, Std.ExtTreeMap.eq_empty_iff_forall_not_mem]
  exact fun hnone => hnone k h

theorem OrdMap.mem_toList {m : OrdMap κ ν} {k : κ} {v : ν} :
    (k, v) ∈ m.toList ↔ m[k]? = some v :=
  Std.ExtTreeMap.mem_toList_iff_getElem?_eq_some

theorem OrdMap.erase_insert [DecidableEq κ] {m : OrdMap κ ν} {k : κ} (h : m[k]? = none) (v : ν) :
    (Std.ExtTreeMap.insert m k v).erase k = m := by
  refine Std.ExtTreeMap.ext_getElem? fun k' => ?_
  rw [OrdMap.getElem?_erase, OrdMap.getElem?_insert]
  split
  · rename_i hk
    rw [← hk, h]
  · rfl

theorem OrdMap.nodup_toList (m : OrdMap κ ν) : m.toList.Nodup := by
  refine Std.ExtTreeMap.distinct_keys_toList.imp fun hdistinct heq => hdistinct ?_
  rw [heq]
  exact Std.ReflCmp.compare_self

theorem OrdMap.toList_insert_perm {m : OrdMap κ ν} {k : κ} (h : k ∉ m) (v : ν) :
    (Std.ExtTreeMap.insert m k v).toList.Perm ((k, v) :: m.toList) := by
  classical
  have hnone : m[k]? = none := Std.ExtTreeMap.getElem?_eq_none h
  have hnew : (k, v) ∉ m.toList := by
    rw [OrdMap.mem_toList, hnone]
    exact Option.some_ne_none v ∘ Eq.symm
  rw [List.perm_ext_iff_of_nodup (OrdMap.nodup_toList _)
    (List.nodup_cons.mpr ⟨hnew, OrdMap.nodup_toList m⟩)]
  rintro ⟨k', v'⟩
  rw [List.mem_cons, OrdMap.mem_toList, OrdMap.mem_toList, OrdMap.getElem?_insert, Prod.mk.injEq]
  split
  · rename_i heq
    rw [← heq, hnone]
    simp [eq_comm]
  · rename_i hne
    simp [Ne.symm hne]

theorem OrdMap.ofList_toList (m : OrdMap κ ν) : Std.ExtTreeMap.ofList m.toList = m := by
  classical
  refine Std.ExtTreeMap.ext_getElem? fun k => ?_
  cases hk : m[k]? with
  | none =>
      refine Std.ExtTreeMap.getElem?_ofList_of_contains_eq_false ?_
      rw [List.contains_eq_mem, decide_eq_false_iff_not, List.mem_map]
      rintro ⟨⟨k', v⟩, hmem, rfl⟩
      rw [OrdMap.mem_toList, hk] at hmem
      cases hmem
  | some v =>
      exact Std.ExtTreeMap.getElem?_ofList_of_mem Std.ReflCmp.compare_self
        Std.ExtTreeMap.distinct_keys_toList (OrdMap.mem_toList.mpr hk)

open scoped List in
/-- A map that is filled with entries of different keys holds these entries. -/
theorem OrdMap.toList_fill_perm {α : Type*} (key : α → κ) (value : α → ν) {m : OrdMap κ ν}
    {l : List α} (hl : l.Pairwise fun a b => key a ≠ key b) (h : ∀ a ∈ l, key a ∉ m) :
    (l.foldl (fun m a => Std.ExtTreeMap.insert m (key a) (value a)) m).toList ~
      m.toList ++ l.map fun a => (key a, value a) := by
  induction l generalizing m with
  | nil => simp
  | cons a l ih =>
      obtain ⟨ha, hrest⟩ := List.pairwise_cons.mp hl
      have hfresh : ∀ b ∈ l, key b ∉ Std.ExtTreeMap.insert m (key a) (value a) := by
        intro b hb hmem
        obtain heq | hmem := OrdMap.mem_insert.mp hmem
        · exact ha b hb heq
        · exact h b (List.mem_cons_of_mem a hb) hmem
      have hinsert := OrdMap.toList_insert_perm (h a List.mem_cons_self) (value a)
      calc (l.foldl (fun m a => Std.ExtTreeMap.insert m (key a) (value a))
            (Std.ExtTreeMap.insert m (key a) (value a))).toList
        _ ~ (Std.ExtTreeMap.insert m (key a) (value a)).toList ++
              l.map fun a => (key a, value a) := ih hrest hfresh
        _ ~ (key a, value a) :: (m.toList ++ l.map fun a => (key a, value a)) :=
          hinsert.append_right _
        _ ~ m.toList ++ (a :: l).map fun a => (key a, value a) := List.perm_middle.symm

end OrdMap

/-- Cells by address. Every address from `next` on is unused. -/
structure Heap (ν : Type*) where
  cells : OrdMap ℕ ν
  next : ℕ
  fresh : ∀ a, next ≤ a → cells[a]? = none

namespace Heap

variable {ν : Type*}

def empty : Heap ν := ⟨∅, 0, by simp⟩

instance : GetElem? (Heap ν) ℕ ν fun h a => a ∈ h.cells where
  getElem h a ha := h.cells[a]
  getElem? h a := h.cells[a]?

/-- A new cell at an address that was never used before. -/
def alloc (h : Heap ν) (v : ν) : Heap ν where
  cells := h.cells.insert h.next v
  next := h.next + 1
  fresh a ha := by
    rw [OrdMap.getElem?_insert, if_neg (by omega)]
    exact h.fresh a (by omega)

/-- Overwrites a cell; an unbound address stays unbound. -/
def write (h : Heap ν) (a : ℕ) (f : ν → ν) : Heap ν where
  cells := h.cells.alter a (Option.map f)
  next := h.next
  fresh b hb := by
    have hb := h.fresh b hb
    rw [Std.ExtTreeMap.getElem?_alter]
    split
    · rename_i he
      rw [Std.LawfulEqOrd.eq_of_compare he, hb]
      rfl
    · exact hb

/-- Frees a cell. -/
def free (h : Heap ν) (a : ℕ) : Heap ν where
  cells := h.cells.erase a
  next := h.next
  fresh b hb := by
    rw [OrdMap.getElem?_erase]
    split
    · rfl
    · exact h.fresh b hb

variable {h : Heap ν} {a b : ℕ} {v : ν}

theorem getElem?_next : h[h.next]? = none := h.fresh _ (Nat.le_refl _)

@[simp] theorem getElem?_alloc : (h.alloc v)[b]? = if h.next = b then some v else h[b]? :=
  OrdMap.getElem?_insert ..

@[simp] theorem getElem?_write (f : ν → ν) :
    (h.write a f)[b]? = if a = b then h[b]?.map f else h[b]? := by
  change (h.cells.alter a (Option.map f))[b]? = if a = b then h.cells[b]?.map f else h.cells[b]?
  by_cases hab : a = b
  · simp [hab]
  · simp [Std.ExtTreeMap.getElem?_alter, hab]

@[simp] theorem getElem?_free : (h.free a)[b]? = if a = b then none else h[b]? :=
  OrdMap.getElem?_erase ..

/-- Two heaps with the same cells that hand out the same address next are equal. -/
@[ext] theorem ext {h h' : Heap ν} (hcells : ∀ a : ℕ, h[a]? = h'[a]?) (hnext : h.next = h'.next) :
    h = h' := by
  obtain ⟨cells, next, _⟩ := h
  obtain ⟨cells', next', _⟩ := h'
  obtain rfl : cells = cells' := Std.ExtTreeMap.ext_getElem? hcells
  obtain rfl : next = next' := hnext
  rfl

/-- Writing what is there changes nothing. -/
theorem write_self {f : ν → ν} (ha : h[a]? = some v) (hf : f v = v) : h.write a f = h := by
  ext1
  · rw [getElem?_write]
    split
    next hab => rw [← hab, ha, Option.map_some, hf]
    next => rfl
  · rfl

/-- What was written to a cell is gone with it. -/
@[simp] theorem free_write (f : ν → ν) : (h.write a f).free a = h.free a := by
  ext1
  · rw [getElem?_free, getElem?_free, getElem?_write]
    split <;> simp_all
  · rfl

theorem ne_next_of_getElem? (ha : h[a]? = some v) : a ≠ h.next := by
  rintro rfl
  simp [getElem?_next] at ha

end Heap

end OpBrowser
