import OpBrowser.Library.Newest
import OpBrowser.Library.Run
import OpBrowser.Model.Ui.HistoryManager
import Mathlib.Data.List.InsertIdx

/-! # Every visited page is shown once

The rows of the filter model are kept up to date in place when a page is visited and are
filled anew after everything else. Both ways lead to the newest visit of every page. -/

namespace OpBrowser.Ui

/-- The pages of these visits. -/
def urls (lst : List HistoryItem) : List QString := lst.map HistoryItem.url

@[simp] theorem urls_cons (item : HistoryItem) (lst : List HistoryItem) :
    urls (item :: lst) = item.url :: urls lst := rfl

@[simp] theorem length_urls (lst : List HistoryItem) : (urls lst).length = lst.length :=
  List.length_map _

/-- The rows are the newest visits of the pages in the log. -/
structure Rows (log : List QString) (f : HistoryFilterModel) : Prop where
  sourceRow : f.sourceRow = (newest log).map fun e => (e.2 : ℤ)
  historyHash : ∀ url (offset : ℤ), f.historyHash[url]? = some offset ↔
    ∃ place : ℕ, (url, place) ∈ newest log ∧ (place : ℤ) = offset

namespace Rows

variable {log : List QString} {f f' : HistoryFilterModel} {url : QString}

theorem mem_historyHash (h : Rows log f) : url ∈ f.historyHash ↔ url ∈ log := by
  rw [← fst_mem_newest, List.mem_map]
  constructor
  · intro hmem
    obtain ⟨place, hplace, -⟩ := (h.historyHash url _).mp
        (Std.ExtTreeMap.getElem?_eq_some_getElem hmem)
    exact ⟨(url, place), hplace, rfl⟩
  · rintro ⟨⟨url', place⟩, hmem, rfl⟩
    have hsome := (h.historyHash url' place).mpr ⟨place, hmem, rfl⟩
    exact Std.ExtTreeMap.mem_iff_isSome_getElem?.mpr (by rw [hsome]; rfl)

/-- The hash has one entry for every row. -/
theorem size (h : Rows log f) : f.historyHash.size = (newest log).length := by
  have hperm : f.historyHash.toList.Perm ((newest log).map fun e => (e.1, (e.2 : ℤ))) := by
    rw [List.perm_ext_iff_of_nodup (OrdMap.nodup_toList _)]
    · rintro ⟨url, offset⟩
      rw [OrdMap.mem_toList, h.historyHash, List.mem_map]
      constructor
      · rintro ⟨place, hmem, rfl⟩
        exact ⟨(url, place), hmem, rfl⟩
      · rintro ⟨⟨url', place⟩, hmem, heq⟩
        obtain ⟨rfl, rfl⟩ := Prod.mk.inj heq
        exact ⟨place, hmem, rfl⟩
    · refine List.Nodup.of_map Prod.fst ?_
      simpa [Function.comp_def] using nodup_newest
  rw [← Std.ExtTreeMap.length_toList, hperm.length_eq, List.length_map]

/-- Rows of the same log are the same. -/
theorem ext (h : Rows log f) (h' : Rows log f') (hloaded : f.loaded = f'.loaded) : f = f' := by
  have hrow : f.sourceRow = f'.sourceRow := h.sourceRow.trans h'.sourceRow.symm
  have hhash : f.historyHash = f'.historyHash := by
    refine Std.ExtTreeMap.ext_getElem? fun url => Option.ext fun offset => ?_
    rw [h.historyHash, h'.historyHash]
  cases f
  cases f'
  simp_all

end Rows

namespace HistoryFilterModel

variable {f : HistoryFilterModel} {lst : List HistoryItem} {item : HistoryItem}

/-! ### Filling the rows -/

/-- The loop of `load` over the rest of a list appends the newest visits of the pages that it has
not seen. -/
theorem foldl_loadRow {all rest : List HistoryItem} (n : ℕ) (hn : n + rest.length = all.length) :
    ((rest.zipIdx n).foldl (loadRow all) f).sourceRow =
        f.sourceRow ++ ((newest (urls rest)).filter (·.1 ∉ f.historyHash)).map
          (fun e => (e.2 : ℤ)) ∧
      ∀ url (offset : ℤ), ((rest.zipIdx n).foldl (loadRow all) f).historyHash[url]? = some offset ↔
        f.historyHash[url]? = some offset ∨
          url ∉ f.historyHash ∧ ∃ place : ℕ, (url, place) ∈ newest (urls rest) ∧
            (place : ℤ) = offset := by
  induction rest generalizing f n with
  | nil => simp [urls, newest]
  | cons item rest ih =>
      have hn' : n + 1 + rest.length = all.length := by
        simp only [List.length_cons] at hn
        omega
      have hplace : (all.length : ℤ) - n = ((urls rest).length + 1 : ℕ) := by
        rw [length_urls]
        omega
      rw [List.zipIdx_cons, List.foldl_cons]
      obtain ⟨hrow, hhash⟩ := ih (f := loadRow all f (item, n)) (n + 1) hn'
      by_cases hseen : item.url ∈ f.historyHash
      · have hskip : loadRow all f (item, n) = f := by rw [loadRow, if_pos hseen]
        rw [hskip] at hrow hhash ⊢
        have hnewest : (newest (urls (item :: rest))).filter (·.1 ∉ f.historyHash) =
            (newest (urls rest)).filter (·.1 ∉ f.historyHash) := by
          rw [urls_cons, newest_cons, List.filter_cons_of_neg (by simpa using hseen),
            List.filter_filter]
          refine List.filter_congr fun e _ => ?_
          by_cases he : e.1 ∈ f.historyHash
          · simp [he]
          · have hne : e.1 ≠ item.url := fun h => he (h ▸ hseen)
            simp [he, hne]
        refine ⟨hrow.trans (by rw [hnewest]), fun url offset => (hhash url offset).trans ?_⟩
        refine or_congr_right (and_congr_right fun hurl => exists_congr fun place =>
          and_congr_left fun _ => ?_)
        have hne : url ≠ item.url := fun h => hurl (h ▸ hseen)
        simp [newest_cons, hne]
      · have hload : loadRow all f (item, n) =
            { f with
              sourceRow := f.sourceRow ++ [(all.length : ℤ) - n]
              historyHash := f.historyHash.insert item.url (all.length - n) } := by
          rw [loadRow, if_neg hseen]
        rw [hload] at hrow hhash ⊢
        constructor
        · have hnewest : (newest (urls rest)).filter
              (fun e => decide (e.1 ∉ f.historyHash.insert item.url (all.length - n))) =
              ((newest (urls rest)).filter (·.1 ≠ item.url)).filter (·.1 ∉ f.historyHash) := by
            rw [List.filter_filter]
            refine List.filter_congr fun e _ => ?_
            by_cases he : e.1 = item.url
            · simp [he]
            · simp [he, Ne.symm he]
          rw [hrow, hnewest, urls_cons, newest_cons, List.filter_cons_of_pos (by simpa using hseen),
            List.map_cons, List.append_assoc, List.singleton_append, hplace]
        · intro url offset
          rw [hhash, OrdMap.getElem?_insert, OrdMap.mem_insert, hplace]
          by_cases hurl : item.url = url
          · subst hurl
            simp [hseen, newest_cons, eq_comm]
          · simp [hurl, Ne.symm hurl, newest_cons]

/-- `load` fills the rows. -/
theorem rows_load (h : f.loaded = true → Rows (urls lst) f) : Rows (urls lst) (f.load lst) := by
  rw [load]
  split
  next hloaded => exact h hloaded
  next =>
    obtain ⟨hrow, hhash⟩ := foldl_loadRow (f := {}) 0 (Nat.zero_add lst.length)
    refine ⟨by simpa using hrow, fun url offset => (hhash url offset).trans ?_⟩
    simp

theorem load_eq_self (h : f.loaded = true) : f.load lst = f := by
  rw [load, if_pos h]

theorem loaded_load : (f.load lst).loaded = true := by
  rw [load]
  split
  · assumption
  · rfl

/-! ### A new visit -/

theorem urlString_natCast {index : QModelIndex} {n : ℕ} (h : index.row = n) :
    HistoryModel.urlString lst index = (lst[n]?.map HistoryItem.url).getD [] := by
  rw [HistoryModel.urlString, h]
  split
  next hout =>
    rw [List.getElem?_eq_none (by omega)]
    rfl
  next => rw [Int.toNat_natCast]

theorem index_natCast {lst : List HistoryItem} {n : ℕ} (hn : n < lst.length) {column : ℤ}
    (hlo : 0 ≤ column) (hhi : column < 2) :
    HistoryModel.index lst n column = { row := n, column } := by
  rw [HistoryModel.index, if_neg (by omega)]

theorem urlString_index_zero :
    HistoryModel.urlString (item :: lst) (HistoryModel.index (item :: lst) 0 0) = item.url := by
  have hindex : HistoryModel.index (item :: lst) (0 : ℕ) 0 = { row := 0, column := 0 } :=
    index_natCast (Nat.zero_lt_succ _) le_rfl zero_lt_two
  change HistoryModel.urlString (item :: lst)
    (HistoryModel.index (item :: lst) (0 : ℕ) 0) = item.url
  rw [urlString_natCast (n := 0) (congrArg QModelIndex.row hindex)]
  rfl

/-- The row of a page, as `mapFromSource` finds it. -/
theorem findIdx_sourceRow {log : List QString} (h : Rows log f) {url : QString} {place : ℕ}
    (hmem : (url, place) ∈ newest log) : ∃ i,
      f.sourceRow.findIdx? (· = (place : ℤ)) = some i ∧
        (newest log).findIdx? (fun e => e.2 = place) = some i ∧
          (newest log)[i]? = some (url, place) := by
  have hsome : ((newest log).findIdx? fun e => e.2 = place).isSome = true := by
    rw [List.findIdx?_isSome, List.any_eq_true]
    exact ⟨(url, place), hmem, by simp⟩
  obtain ⟨i, hi⟩ := Option.isSome_iff_exists.mp hsome
  refine ⟨i, ?_, hi, ?_⟩
  · rw [h.sourceRow, List.findIdx?_map, ← hi]
    congr 1
    funext e
    simp
  · obtain ⟨hlt, hplace, -⟩ := List.findIdx?_eq_some_iff_getElem.mp hi
    have heq : (newest log)[i] = (url, place) :=
      newest_inj_place (List.getElem_mem hlt) hmem (by simpa using hplace)
    rw [List.getElem?_eq_getElem hlt, heq]

/-- Putting a visit in front keeps the rows right. -/
theorem rows_sourceRowsInserted (hloaded : f.loaded = true) (h : Rows (urls lst) f) :
    Rows (urls (item :: lst)) (f.sourceRowsInserted (item :: lst)) := by
  have hnew : ∀ f' : HistoryFilterModel,
      f'.sourceRow = ((newest (urls lst)).filter (·.1 ≠ item.url)).map (fun e => (e.2 : ℤ)) →
      (∀ url (offset : ℤ), url ≠ item.url → (f'.historyHash[url]? = some offset ↔
        ∃ place : ℕ, (url, place) ∈ newest (urls lst) ∧ (place : ℤ) = offset)) →
      Rows (urls (item :: lst))
        { f' with
          historyHash := f'.historyHash.insert item.url ((item :: lst).length : ℤ)
          sourceRow := ((item :: lst).length : ℤ) :: f'.sourceRow } := by
    intro f' hrow hhash
    refine ⟨?_, fun url offset => ?_⟩
    · simp [hrow, newest_cons]
    · rw [OrdMap.getElem?_insert, urls_cons, newest_cons]
      by_cases hurl : item.url = url
      · subst hurl
        simp
      · rw [if_neg hurl, hhash url offset (Ne.symm hurl)]
        simp [Ne.symm hurl]
  simp only [sourceRowsInserted, hloaded, Bool.not_true, Bool.false_eq_true, if_false,
    urlString_index_zero]
  cases hurl : f.historyHash[item.url]? with
  | none =>
      -- the page is new
      have hnot : item.url ∉ (newest (urls lst)).map Prod.fst := by
        rw [fst_mem_newest, ← h.mem_historyHash]
        rw [Std.ExtTreeMap.mem_iff_isSome_getElem?, hurl]
        exact Bool.false_ne_true
      have hall : ∀ e ∈ newest (urls lst), decide (e.1 ≠ item.url) = true := by
        intro e he
        simpa using fun heq : e.1 = item.url => hnot (heq ▸ List.mem_map_of_mem he)
      refine hnew f ?_ fun url offset _ => h.historyHash url offset
      rw [h.sourceRow, List.filter_eq_self.mpr hall]
  | some offset =>
      -- its old row goes
      obtain ⟨place, hmem, rfl⟩ := (h.historyHash item.url offset).mp hurl
      obtain ⟨hpos, hle, hget, -⟩ := mem_newest.mp hmem
      rw [length_urls] at hle hget
      obtain ⟨i, hi, hi', -⟩ := findIdx_sourceRow h hmem
      have hrow : (f.mapFromSource (item :: lst)
          (HistoryModel.index (item :: lst) ((item :: lst).length - place) 0)).row = i := by
        have hcast : ((item :: lst).length : ℤ) - place = (lst.length - place + 1 : ℕ) := by
          simp only [List.length_cons]
          omega
        have hindex : HistoryModel.index (item :: lst) (lst.length - place + 1 : ℕ) 0 =
            { row := (lst.length - place + 1 : ℕ), column := 0 } :=
          index_natCast (by rw [List.length_cons]; omega) le_rfl zero_lt_two
        have hstring : HistoryModel.urlString (item :: lst)
            { row := ((lst.length - place + 1 : ℕ) : ℤ), column := 0 } = item.url := by
          rw [urls, List.getElem?_map] at hget
          rw [urlString_natCast rfl, List.getElem?_cons_succ, hget, Option.getD_some]
        have hoffset : ((item :: lst).length : ℤ) - ((lst.length - place + 1 : ℕ) : ℤ) = place := by
          omega
        have hcontains : item.url ∈ f.historyHash :=
          Std.ExtTreeMap.mem_iff_isSome_getElem?.mpr (by rw [hurl]; rfl)
        rw [hcast, hindex, mapFromSource, load_eq_self hloaded, hstring, if_pos hcontains]
        simp only [hoffset, hi]
      dsimp only
      rw [hrow]
      refine hnew
        { sourceRow := f.sourceRow.eraseIdx (i : ℤ).toNat
          historyHash := f.historyHash.erase item.url
          loaded := true } ?_ fun url offset hne => ?_
      · change f.sourceRow.eraseIdx (Int.toNat i) = _
        rw [Int.toNat_natCast, h.sourceRow, ← eraseIdx_newest hmem hi', List.eraseIdx_map]
      · change (f.historyHash.erase item.url)[url]? = _ ↔ _
        rw [OrdMap.getElem?_erase, if_neg (Ne.symm hne)]
        exact h.historyHash url offset

end HistoryFilterModel

end OpBrowser.Ui
