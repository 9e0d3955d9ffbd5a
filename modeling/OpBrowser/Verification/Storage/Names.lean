import OpBrowser.Library.Digits
import OpBrowser.Model.Storage
import Mathlib.Data.List.Nodup

/-! # The names that downloads get

A directory has finitely many entries and the numbered names are distinct, so the
search for a free name ends. -/

namespace OpBrowser.Storage

variable {d : Directory} {baseName endName name : QString} {fuel i : ℕ}

/-! ### Numbered names -/

theorem toNat_toUInt16 {c : Char} (h : c.toNat ≤ 57) : c.toNat.toUInt16.toNat = c.toNat := by
  refine UInt16.toNat_ofNat_of_lt' (Nat.lt_of_le_of_lt h ?_)
  decide

theorem number_injective : Function.Injective QString.number := by
  refine Digits.map_toDigits_injective _ (fun u => Char.ofNat u.toNat) fun c _ hc => ?_
  rw [toNat_toUInt16 hc, Char.ofNat_toNat]

theorem slash_notMem_number (n : ℕ) : QString.slash ∉ QString.number n := by
  intro h
  rw [QString.number, List.mem_map] at h
  obtain ⟨c, hc, heq⟩ := h
  obtain ⟨hlo, hhi⟩ := Digits.toNat_of_mem_toDigits hc
  have hu := toNat_toUInt16 hhi
  rw [heq] at hu
  rw [← hu] at hlo
  exact absurd hlo (by decide)

/-- The names that the search tries one after the other. -/
def numbered (baseName endName : QString) (i : ℕ) : QString :=
  baseName ++ QString.dash :: QString.number i ++ endName

theorem numbered_injective : Function.Injective (numbered baseName endName) := by
  intro i j h
  have h := List.append_cancel_right h
  have h := List.append_cancel_left h
  exact number_injective (List.tail_eq_of_cons_eq h)

/-! ### The search ends -/

theorem mem_entries (h : d.fileExists name = true) : name ∈ d.files.keys ++ d.folders := by
  rw [Directory.fileExists, Bool.or_eq_true] at h
  rw [List.mem_append]
  cases h with
  | inl h => exact Or.inl (Std.ExtTreeMap.mem_keys.2 (Std.ExtTreeMap.mem_iff_contains.2 h))
  | inr h => exact Or.inr (List.contains_iff_mem.1 h)

theorem searchName_succ :
    searchName d baseName endName (fuel + 1) i =
      if d.fileExists (numbered baseName endName i) then
        searchName d baseName endName fuel (i + 1)
      else some (numbered baseName endName i) :=
  rfl

theorem searchName_spec (h : searchName d baseName endName fuel i = some name) :
    d.fileExists name = false ∧ ∃ j, name = numbered baseName endName j := by
  induction fuel generalizing i with
  | zero => cases h
  | succ fuel ih =>
      rw [searchName_succ] at h
      split at h
      · exact ih h
      · rename_i hfree
        cases h
        exact ⟨Bool.eq_false_iff.2 hfree, i, rfl⟩

theorem searchName_add (h : searchName d baseName endName fuel i = some name) (k : ℕ) :
    searchName d baseName endName (fuel + k) i = some name := by
  induction fuel generalizing i with
  | zero => cases h
  | succ fuel ih =>
      rw [searchName_succ] at h
      rw [Nat.succ_add, searchName_succ]
      split at h
      · rename_i htaken
        rw [if_pos htaken]
        exact ih h
      · rename_i hfree
        rw [if_neg hfree]
        exact h

theorem freeName_add (h : freeName d baseName endName fuel = some name) (k : ℕ) :
    freeName d baseName endName (fuel + k) = some name := by
  rw [freeName] at h ⊢
  split at h
  · rename_i htaken
    rw [if_pos htaken]
    exact searchName_add h k
  · rename_i hfree
    rw [if_neg hfree]
    exact h

/-- A search that does not end has only tried names that are taken. -/
theorem fileExists_of_searchName_none (h : searchName d baseName endName fuel i = none) {j : ℕ}
    (hj : j < fuel) : d.fileExists (numbered baseName endName (i + j)) = true := by
  induction fuel generalizing i j with
  | zero => omega
  | succ fuel ih =>
      rw [searchName_succ] at h
      split at h
      · rename_i htaken
        cases j with
        | zero => exact htaken
        | succ j =>
            have hnext := ih h (j := j) (by omega)
            rwa [Nat.add_right_comm] at hnext
      · cases h

theorem searchName_ends (d : Directory) (baseName endName : QString) (i : ℕ) :
    ∃ name N, ∀ fuel > N, searchName d baseName endName fuel i = some name := by
  cases hres : searchName d baseName endName ((d.files.keys ++ d.folders).length + 1) i with
  | some name =>
      refine ⟨name, (d.files.keys ++ d.folders).length, fun fuel hfuel => ?_⟩
      obtain ⟨k, rfl⟩ := Nat.exists_eq_add_of_le (Nat.succ_le_of_lt hfuel)
      exact searchName_add hres k
  | none =>
      let tried := (List.range ((d.files.keys ++ d.folders).length + 1)).map
        fun j => numbered baseName endName (i + j)
      have hnodup : tried.Nodup :=
        List.Nodup.map (fun j k h => Nat.add_left_cancel (numbered_injective h)) List.nodup_range
      have hsubset : tried ⊆ d.files.keys ++ d.folders := by
        intro name hname
        obtain ⟨j, hj, rfl⟩ := List.mem_map.1 hname
        exact mem_entries (fileExists_of_searchName_none hres (List.mem_range.1 hj))
      have hlength := hnodup.length_le_of_subset hsubset
      rw [List.length_map, List.length_range] at hlength
      omega

/-! ### Plain names -/

/-- A name for a file in the directory itself. -/
structure IsPlain (name : QString) : Prop where
  ne_nil : name ≠ []
  no_slash : QString.slash ∉ name
  ne_dot : name ≠ QString.ofString "."
  ne_dots : name ≠ QString.ofString ".."

theorem slash_notMem_lastComponent (path : QString) : QString.slash ∉ lastComponent path := by
  intro h
  have h := List.mem_takeWhile_imp (List.mem_reverse.1 h)
  simp at h

theorem completeBaseName_subset (path : QString) : completeBaseName path ⊆ lastComponent path := by
  rw [completeBaseName]
  split
  · intro u hu
    have hu := List.mem_of_mem_tail (List.mem_reverse.1 hu)
    exact List.mem_reverse.1 (List.dropWhile_subset _ hu)
  · exact List.Subset.refl _

theorem suffix_subset (path : QString) : suffix path ⊆ lastComponent path := by
  rw [suffix]
  split
  · intro u hu
    exact List.mem_reverse.1 (List.takeWhile_subset _ (List.mem_reverse.1 hu))
  · exact List.nil_subset _

theorem nameParts_clear (path : QString) :
    (nameParts path).1 ≠ [] ∧ QString.slash ∉ (nameParts path).1 ∧
      QString.slash ∉ (nameParts path).2 := by
  have hslash := slash_notMem_lastComponent path
  refine ⟨?_, ?_, ?_⟩
  · simp only [nameParts]
    split
    · decide
    · assumption
  · simp only [nameParts]
    split
    · decide
    · exact fun h => hslash (completeBaseName_subset path h)
  · simp only [nameParts]
    split
    · rw [List.mem_cons, not_or]
      exact ⟨by decide, fun h => hslash (suffix_subset path h)⟩
    · exact fun h => hslash (suffix_subset path h)

theorem dot_fileExists (d : Directory) : d.fileExists (QString.ofString ".") = true := by
  simp [Directory.fileExists, d.dots.1]

theorem dots_fileExists (d : Directory) : d.fileExists (QString.ofString "..") = true := by
  simp [Directory.fileExists, d.dots.2]

theorem isPlain_of_free (hfree : d.fileExists name = false) (hne : name ≠ [])
    (hslash : QString.slash ∉ name) : IsPlain name where
  ne_nil := hne
  no_slash := hslash
  ne_dot := fun h => by rw [h, dot_fileExists] at hfree; cases hfree
  ne_dots := fun h => by rw [h, dots_fileExists] at hfree; cases hfree

/-- Whatever name is proposed, the search ends with a plain name that is free. -/
theorem freeName_ends (d : Directory) (path : QString) :
    ∃ name N, IsPlain name ∧ d.fileExists name = false ∧
      ∀ fuel > N, freeName d (nameParts path).1 (nameParts path).2 fuel = some name := by
  obtain ⟨hne, hbase, hend⟩ := nameParts_clear path
  cases hfirst : d.fileExists ((nameParts path).1 ++ (nameParts path).2) with
  | false =>
      refine ⟨_, 0, isPlain_of_free hfirst (by simp [hne]) ?_, hfirst, fun fuel _ => ?_⟩
      · rw [List.mem_append, not_or]
        exact ⟨hbase, hend⟩
      · simp [freeName, hfirst]
  | true =>
      obtain ⟨name, N, hsearch⟩ := searchName_ends d (nameParts path).1 (nameParts path).2 1
      obtain ⟨hfree, j, rfl⟩ := searchName_spec (hsearch _ (Nat.lt_succ_self _))
      refine ⟨_, N, isPlain_of_free hfree (by simp [numbered]) ?_, hfree, fun fuel hfuel => ?_⟩
      · simp only [numbered, List.mem_append, List.mem_cons, not_or]
        exact ⟨⟨hbase, by decide, slash_notMem_number j⟩, hend⟩
      · rw [freeName, if_pos hfirst]
        exact hsearch fuel hfuel

end OpBrowser.Storage
