import OpBrowser.Verification.Ui.Visits
import Mathlib.Data.List.Dedup

/-! # The pages that the filter model shows in a run

Whatever happens to the list of visits, every query of the filter model sees each page
once, at the row of its last visit. -/

namespace OpBrowser.Ui

/-- What the queries of the filter model show of a list of visits. -/
structure NewestFirst (lst : List HistoryItem) (f : HistoryFilterModel) : Prop where
  contains : ∀ url, f.historyContains lst url = true ↔ url ∈ urls lst
  /-- `historyLocation` is the row of the last visit of a page. -/
  location : ∀ url ∈ urls lst, ∃ n : ℕ, f.historyLocation lst url = n ∧
    (urls lst)[n]? = some url ∧ url ∉ (urls lst).take n
  /-- There is one row for each page. -/
  rowCount : f.rowCount lst = (urls lst).dedup.length
  /-- A row leads to a visit, which leads back to it. -/
  shown : ∀ row column : ℤ, 0 ≤ row → row < f.rowCount lst → 0 ≤ column → column < 2 →
    ∃ n : ℕ, n < lst.length ∧
      HistoryFilterModel.mapToSource lst (f.index lst row column) =
        HistoryModel.index lst n column ∧
      f.mapFromSource lst (HistoryModel.index lst n column) = f.index lst row column
  /-- A visit has a row if it is the last one of its page. -/
  found : ∀ (n : ℕ) (url : QString) (column : ℤ), (urls lst)[n]? = some url → 0 ≤ column →
    column < 2 → ((f.mapFromSource lst (HistoryModel.index lst n column)).isValid = true ↔
      url ∉ (urls lst).take n)
  /-- The rows are in the order of the visits. -/
  order : ∀ row row' column : ℤ, 0 ≤ row → row < row' → row' < f.rowCount lst →
    0 ≤ column → column < 2 →
      (HistoryFilterModel.mapToSource lst (f.index lst row column)).row <
        (HistoryFilterModel.mapToSource lst (f.index lst row' column)).row

namespace HistoryFilterModel

variable {f : HistoryFilterModel} {lst : List HistoryItem}

section Rows

variable (h : Rows (urls lst) (f.load lst))
include h

theorem rowCount_eq : f.rowCount lst = (newest (urls lst)).length := by
  rw [rowCount, h.size]

/-- The entry of a row. -/
theorem exists_entry {row : ℤ} (hlo : 0 ≤ row) (hhi : row < f.rowCount lst) :
    ∃ (url : QString) (place : ℕ), (newest (urls lst))[row.toNat]? = some (url, place) ∧
      0 < place ∧ place ≤ lst.length ∧ (urls lst)[lst.length - place]? = some url ∧
      url ∉ (urls lst).take (lst.length - place) := by
  rw [rowCount_eq h] at hhi
  have hlt : row.toNat < (newest (urls lst)).length := by omega
  refine ⟨_, _, List.getElem?_eq_getElem hlt, ?_⟩
  have hmem : ((newest (urls lst))[row.toNat].1, (newest (urls lst))[row.toNat].2) ∈
      newest (urls lst) := List.getElem_mem hlt
  rw [mem_newest, length_urls] at hmem
  exact hmem

theorem index_eq {row column : ℤ} {url : QString} {place : ℕ} (hlo : 0 ≤ row)
    (hhi : row < f.rowCount lst) (hcol : 0 ≤ column) (hcol' : column < 2)
    (hentry : (newest (urls lst))[row.toNat]? = some (url, place)) :
    f.index lst row column = { row, column, internalId := place } := by
  rw [index, if_neg (by omega), h.sourceRow, List.getElem?_map, hentry]
  rfl

theorem mapToSource_eq {row column : ℤ} {url : QString} {place : ℕ} (hlo : 0 ≤ row)
    (hhi : row < f.rowCount lst) (hcol : 0 ≤ column) (hcol' : column < 2)
    (hentry : (newest (urls lst))[row.toNat]? = some (url, place)) (hplace : place ≤ lst.length) :
    mapToSource lst (f.index lst row column) =
      HistoryModel.index lst (lst.length - place : ℕ) column := by
  have hcast : (lst.length : ℤ) - place = (lst.length - place : ℕ) := by omega
  rw [index_eq h hlo hhi hcol hcol' hentry, mapToSource, hcast]

/-- The row of the last visit of a page. -/
theorem mapFromSource_eq {n i place : ℕ} {url : QString} {column : ℤ} (hcol : 0 ≤ column)
    (hcol' : column < 2) (hentry : (newest (urls lst))[i]? = some (url, place))
    (hn : n + place = lst.length) (hpos : 0 < place) (hurl : (urls lst)[n]? = some url) :
    f.mapFromSource lst (HistoryModel.index lst n column) =
      { row := i, column, internalId := place } := by
  have hmem : (url, place) ∈ newest (urls lst) := List.mem_of_getElem? hentry
  obtain ⟨j, hj, hj', hjentry⟩ := findIdx_sourceRow h hmem
  obtain rfl : i = j := by
    obtain ⟨hi, hi'⟩ := List.getElem?_eq_some_iff.mp hentry
    obtain ⟨hjlt, hjeq⟩ := List.getElem?_eq_some_iff.mp hjentry
    have hnodup : (newest (urls lst)).Nodup := List.Nodup.of_map Prod.fst nodup_newest
    exact hnodup.getElem_inj_iff.mp (hi'.trans hjeq.symm)
  have hstring : HistoryModel.urlString lst { row := n, column } = url := by
    rw [urlString_natCast rfl]
    rw [urls, List.getElem?_map] at hurl
    rw [hurl, Option.getD_some]
  have hcontains : url ∈ (f.load lst).historyHash :=
    h.mem_historyHash.mpr (List.mem_of_getElem? hurl)
  have hcast : (lst.length : ℤ) - n = place := by omega
  rw [index_natCast (by omega) hcol hcol', mapFromSource, hstring, if_pos hcontains]
  simp only [hcast, hj]

/-- An older visit of a page has no row. -/
theorem mapFromSource_older {n : ℕ} {url : QString} {column : ℤ} (hcol : 0 ≤ column)
    (hcol' : column < 2) (hurl : (urls lst)[n]? = some url) (hold : url ∈ (urls lst).take n) :
    f.mapFromSource lst (HistoryModel.index lst n column) = {} := by
  have hn : n < lst.length := by
    obtain ⟨hn, -⟩ := List.getElem?_eq_some_iff.mp hurl
    rwa [length_urls] at hn
  have hnone : (f.load lst).sourceRow.findIdx? (· = (lst.length : ℤ) - n) = none := by
    rw [List.findIdx?_eq_none_iff, h.sourceRow]
    intro offset hoffset
    obtain ⟨⟨url', place⟩, hmem, rfl⟩ := List.mem_map.mp hoffset
    obtain ⟨-, hle, hget, hnot⟩ := mem_newest.mp hmem
    rw [length_urls] at hle hget hnot
    rw [decide_eq_false_iff_not]
    intro heq
    have hplace : lst.length - place = n := by
      dsimp only at heq
      omega
    rw [hplace] at hget hnot
    rw [hurl] at hget
    exact hnot (Option.some.inj hget ▸ hold)
  rw [index_natCast hn hcol hcol', mapFromSource]
  split
  next => simp only [hnone]
  next => rfl

/-- Rows that are right show the newest visits. -/
theorem newestFirst : NewestFirst lst f where
  contains url := by
    rw [historyContains, Std.ExtTreeMap.contains_iff_mem, h.mem_historyHash]
  location url hurl := by
    obtain ⟨⟨url', place⟩, hmem, rfl⟩ := List.mem_map.mp (fst_mem_newest.mpr hurl)
    obtain ⟨-, hle, hget, hnot⟩ := mem_newest.mp hmem
    rw [length_urls] at hle hget hnot
    refine ⟨lst.length - place, ?_, hget, hnot⟩
    have hsome := (h.historyHash url' place).mpr ⟨place, hmem, rfl⟩
    rw [historyLocation]
    simp only [hsome]
    omega
  rowCount := by
    have hperm : ((newest (urls lst)).map Prod.fst).Perm (urls lst).dedup := by
      rw [List.perm_ext_iff_of_nodup nodup_newest (List.nodup_dedup _)]
      intro url
      rw [fst_mem_newest, List.mem_dedup]
    rw [rowCount_eq h, ← hperm.length_eq, List.length_map]
  shown row column hlo hhi hcol hcol' := by
    obtain ⟨url, place, hentry, hpos, hle, hget, -⟩ := exists_entry h hlo hhi
    refine ⟨lst.length - place, by omega, mapToSource_eq h hlo hhi hcol hcol' hentry hle, ?_⟩
    rw [mapFromSource_eq h hcol hcol' hentry (by omega) hpos hget,
      index_eq h hlo hhi hcol hcol' hentry, Int.toNat_of_nonneg hlo]
  found n url column hurl hcol hcol' := by
    have hn : n < lst.length := by
      obtain ⟨hn, -⟩ := List.getElem?_eq_some_iff.mp hurl
      rwa [length_urls] at hn
    by_cases hold : url ∈ (urls lst).take n
    · rw [mapFromSource_older h hcol hcol' hurl hold]
      simp [QModelIndex.isValid, hold]
    · have hmem : (url, lst.length - n) ∈ newest (urls lst) := by
        have hsub : lst.length - (lst.length - n) = n := by omega
        rw [mem_newest, length_urls, hsub]
        exact ⟨by omega, by omega, hurl, hold⟩
      obtain ⟨i, hi⟩ := List.mem_iff_getElem?.mp hmem
      rw [mapFromSource_eq h hcol hcol' hi (by omega) (by omega) hurl]
      simp [QModelIndex.isValid, hold, hcol]
  order row row' column hlo hlt hhi hcol hcol' := by
    obtain ⟨url, place, hentry, hpos, hle, -⟩ := exists_entry h hlo (hlt.trans hhi)
    obtain ⟨url', place', hentry', hpos', hle', -⟩ := exists_entry h (hlo.trans hlt.le) hhi
    rw [mapToSource_eq h hlo (hlt.trans hhi) hcol hcol' hentry hle,
      mapToSource_eq h (hlo.trans hlt.le) hhi hcol hcol' hentry' hle',
      index_natCast (by omega) hcol hcol', index_natCast (by omega) hcol hcol']
    obtain ⟨hr, hreq⟩ := List.getElem?_eq_some_iff.mp hentry
    obtain ⟨hr', hreq'⟩ := List.getElem?_eq_some_iff.mp hentry'
    have hpairwise : (newest (urls lst)).Pairwise _ := pairwise_newest
    have hplace := List.pairwise_iff_getElem.mp hpairwise row.toNat row'.toNat hr hr' (by omega)
    rw [hreq, hreq'] at hplace
    dsimp only at hplace ⊢
    omega

end Rows

end HistoryFilterModel

/-! ### Runs -/

namespace HistoryManager

/-- The rows of the filter model are right, or they are filled before the next query. -/
def Fresh (m : HistoryManager) : Prop :=
  m.historyFilterModel.loaded = true → Rows (urls m.history) m.historyFilterModel

variable {qt : QtHistory} {m : HistoryManager} {now : ℤ}

theorem fresh_reset : Fresh m.reset := by
  intro hloaded
  cases hloaded

theorem fresh_load (h : Fresh m) :
    Fresh { m with historyFilterModel := m.historyFilterModel.load m.history } :=
  fun _ => HistoryFilterModel.rows_load h

theorem fresh_expire {n : ℕ} (h : Fresh m) : Fresh (expire qt now n m) := by
  induction n generalizing m with
  | zero => exact h
  | succ n ih =>
      rw [expire]
      split
      · exact h
      · split
        · exact h
        · exact ih fresh_reset

theorem fresh_checkForExpired (h : Fresh m) : Fresh (m.checkForExpired qt now) := by
  rw [checkForExpired]
  split
  · exact h
  · exact fresh_expire h

theorem fresh_addHistoryItem {item : HistoryItem} (h : Fresh m) :
    Fresh (m.addHistoryItem qt item now) := by
  have hadded : Fresh (entryAdded { m with history := item :: m.history }) := by
    intro hloaded
    cases hm : m.historyFilterModel.loaded with
    | false =>
        simp [entryAdded, HistoryFilterModel.sourceRowsInserted, hm] at hloaded
    | true => exact HistoryFilterModel.rows_sourceRowsInserted hm (h hm)
  rw [addHistoryItem]
  split
  · exact fresh_checkForExpired hadded
  · exact hadded

theorem fresh_updateHistoryItem {url title : QString} (h : Fresh m) :
    Fresh (m.updateHistoryItem qt url title) := by
  rw [updateHistoryItem]
  split
  · exact h
  · split
    · exact h
    · rename_i i _
      -- a title is not a page
      have hurls : urls (m.history.modify i fun item => { item with title }) = urls m.history := by
        refine List.ext_getElem? fun j => ?_
        simp only [urls, List.getElem?_map, List.getElem?_modify]
        split
        · cases m.history[j]? <;> rfl
        · simp
      intro hloaded
      change Rows (urls (m.history.modify i _)) m.historyFilterModel
      rw [hurls]
      exact h hloaded

theorem fresh_step {call : Call} (h : Fresh m) : Fresh (step qt m call) := by
  cases call with
  | addHistoryEntry url currentDateTime now => exact fresh_addHistoryItem h
  | setHistory history loadedAndSorted now => exact fresh_reset
  | updateHistoryItem url title => exact fresh_updateHistoryItem h
  | setHistoryLimit limit now =>
      rw [step, setHistoryLimit]
      split
      · exact h
      · exact fresh_checkForExpired h
  | checkForExpired now => exact fresh_checkForExpired h
  | clear => exact fresh_reset
  | removeModelRows row count now => exact fresh_reset
  | removeFilterRows row count now =>
      rw [step, removeFilterRows]
      dsimp only
      split
      · exact fresh_load h
      · exact fresh_load fresh_reset
  | query => exact fresh_load h

theorem fresh_run (calls : List Call) : Fresh (run qt calls) :=
  (Along.of_forall fun _ _ => trivial : Along (fun _ _ => True) (step qt) {} calls).invariant
    (fun hloaded => by cases hloaded) fun _ _ h _ => fresh_step h

/-- After any run every query sees each page once, and keeping the rows up to date gives the
same rows as filling them anew. -/
theorem visited_run (qt : QtHistory) (calls : List Call) :
    NewestFirst (run qt calls).history (run qt calls).historyFilterModel ∧
      (run qt calls).historyFilterModel.load (run qt calls).history =
        HistoryFilterModel.load {} (run qt calls).history := by
  have hfresh : Fresh (run qt calls) := fresh_run calls
  have hrows := HistoryFilterModel.rows_load hfresh
  refine ⟨HistoryFilterModel.newestFirst hrows, hrows.ext ?_ ?_⟩
  · exact HistoryFilterModel.rows_load fun h => by cases h
  · rw [HistoryFilterModel.loaded_load, HistoryFilterModel.loaded_load]

end HistoryManager

end OpBrowser.Ui
