import OpBrowser.Model.Ui.History

/-! # Where the entries of the history menus lead

An action of a menu carries a number from which its item is found again, and the history goes
to the first entry that equals the item. -/

namespace OpBrowser.Ui.History

variable {h : History} {i f : ℕ} {item : HistoryItem} {action : QAction}

/-- The current entry is -1 exactly without entries, and else the index of one. -/
structure Valid (h : History) : Prop where
  empty : h.current = -1 ↔ h.entries = []
  index : h.entries ≠ [] → 0 ≤ h.current ∧ h.current < h.entries.length

/-- The back menu lists entry `i` with this action: its first action is for the entry before
the current one, and so on backwards. -/
def ListsBack (h : History) (i : ℕ) (action : QAction) : Prop :=
  ∃ k : ℕ, h.slotAboutToShowBackMenu[k]? = some action ∧ (i : ℤ) = h.current - 1 - k

/-- The forward menu lists entry `i` with this action, from the entry behind the current one on. -/
def ListsForward (h : History) (i : ℕ) (action : QAction) : Prop :=
  ∃ k : ℕ, h.slotAboutToShowForwardMenu[k]? = some action ∧ (i : ℤ) = h.current + 1 + k

/-- The action shows entry `i`, makes it the current one and loads its URL. -/
def Opens (h : History) (i : ℕ) (action : QAction) : Prop :=
  ∃ item, h.entries[i]? = some item ∧ action.text = actionText item ∧
    ∃ loaded, h.slotOpenActionUrl action = some ({ h with current := i }, some loaded) ∧
      loaded.url = item.url

/-- An earlier entry is equal to entry `i`. -/
def Repeated (h : History) (i : ℕ) : Prop := ∃ j < i, h.entries[j]? = h.entries[i]?

/-! ### Runs -/

theorem Valid.of_bounds (h₀ : 0 ≤ h.current) (h₁ : h.current < h.entries.length) : Valid h where
  empty := by
    refine iff_of_false (by omega) fun hnil => ?_
    rw [hnil, List.length_nil] at h₁
    omega
  index _ := ⟨h₀, h₁⟩

theorem Valid.bounds (hv : Valid h) :
    h.entries = [] ∧ h.current = -1 ∨ 0 ≤ h.current ∧ h.current < h.entries.length := by
  by_cases hnil : h.entries = []
  · exact .inl ⟨hnil, hv.empty.mpr hnil⟩
  · exact .inr (hv.index hnil)

theorem canGoBack_iff : h.canGoBack = true ↔ 0 < h.current := by
  simp [canGoBack]

theorem canGoForward_iff :
    h.canGoForward = true ↔ 0 ≤ h.current ∧ h.current + 1 < h.entries.length := by
  simp [canGoForward]

theorem Valid.canGoBack (hv : Valid h) (hback : h.canGoBack = true) :
    0 < h.current ∧ h.current < h.entries.length := by
  have hpos := canGoBack_iff.mp hback
  obtain ⟨-, hcurrent⟩ | ⟨-, hlt⟩ := hv.bounds
  · omega
  · exact ⟨hpos, hlt⟩

theorem Valid.ajustCurrentItem (hv : Valid h) (back : Bool) : Valid (h.ajustCurrentItem back) := by
  rw [History.ajustCurrentItem]
  split
  · rename_i hback
    obtain ⟨hpos, hlt⟩ := hv.canGoBack (Bool.and_eq_true_iff.mp hback).2
    exact .of_bounds (by dsimp only; omega) (by dsimp only; omega)
  · split
    · rename_i hforward
      obtain ⟨hpos, hlt⟩ := canGoForward_iff.mp (Bool.and_eq_true_iff.mp hforward).2
      exact .of_bounds (by dsimp only; omega) (by dsimp only; omega)
    · exact hv

theorem back_fst : h.back.1 = h.ajustCurrentItem true := by
  rw [back, ajustCurrentItem]
  cases hback : h.canGoBack <;> simp

theorem forward_fst : h.forward.1 = h.ajustCurrentItem false := by
  rw [forward, ajustCurrentItem]
  cases hforward : h.canGoForward <;> simp

theorem Valid.addItem (hv : Valid h) (item : HistoryItem) : Valid (h.addItem item) := by
  rw [History.addItem]
  obtain ⟨hnil, hcurrent⟩ | ⟨hpos, hlt⟩ := hv.bounds
  · refine .of_bounds ?_ ?_ <;> simp [hnil, hcurrent]
  · refine .of_bounds (by dsimp only; omega) ?_
    dsimp only
    rw [if_pos hpos, List.length_append, List.length_take, List.length_singleton]
    omega

theorem Valid.setCurrentItemTitle (hv : Valid h) (title : QString) :
    Valid (h.setCurrentItemTitle title) := by
  rw [History.setCurrentItemTitle]
  split
  · rename_i hset
    obtain ⟨-, hcurrent⟩ | ⟨hpos, hlt⟩ := hv.bounds
    · omega
    · exact .of_bounds hpos (by simpa using hlt)
  · exact hv

theorem Valid.goToItem (hv : Valid h) (item : HistoryItem) : Valid (h.goToItem item).1 := by
  rw [History.goToItem]
  split
  · exact hv
  · split
    · exact hv
    · rename_i idx hidx
      obtain ⟨hlt, -⟩ := List.findIdx?_eq_some_iff_getElem.mp hidx
      exact .of_bounds (by simp) (by simpa using hlt)

theorem Valid.call (hv : Valid h) (c : HistoryCall) : Valid (h.call c) := by
  cases c with
  | addItem item => exact hv.addItem item
  | back =>
      rw [History.call, back_fst]
      exact hv.ajustCurrentItem true
  | forward =>
      rw [History.call, forward_fst]
      exact hv.ajustCurrentItem false
  | ajustCurrentItem back => exact hv.ajustCurrentItem back
  | setCurrentItemTitle title => exact hv.setCurrentItemTitle title
  | goToItem item => exact hv.goToItem item

theorem valid_run (calls : List HistoryCall) : Valid (run calls) := by
  have hcalls : ∀ h, Valid h → Valid (calls.foldl History.call h) := by
    induction calls with
    | nil => exact fun _ hv => hv
    | cons c calls ih => exact fun h hv => ih _ (hv.call c)
  exact hcalls {} ⟨by simp, by simp⟩

/-! ### The entry that an action finds -/

/-- The history goes to the first entry that equals the item. -/
theorem goToItem_of_entry (hv : Valid h) (hf : h.entries[f]? = some item) :
    ∃ j ≤ f, h.entries[j]? = some item ∧ (∀ k < j, h.entries[k]? ≠ some item) ∧
      h.goToItem item = ({ h with current := j }, some item) := by
  obtain ⟨hlt, hitem⟩ := List.getElem?_eq_some_iff.mp hf
  obtain ⟨hnil, -⟩ | ⟨hpos, hcurrent⟩ := hv.bounds
  · rw [hnil] at hlt
    cases hlt
  rw [History.goToItem, if_neg (by omega)]
  cases hfind : h.entries.findIdx? (· = item) with
  | none =>
      have hno := List.findIdx?_eq_none_iff.mp hfind _ (List.getElem_mem hlt)
      exact absurd hitem (of_decide_eq_false hno)
  | some j =>
      obtain ⟨hj, heq, hbefore⟩ := List.findIdx?_eq_some_iff_getElem.mp hfind
      refine ⟨j, ?_, ?_, fun k hk => ?_, rfl⟩
      · by_contra hgt
        exact hbefore f (not_le.mp hgt) (decide_eq_true hitem)
      · rw [List.getElem?_eq_getElem hj, of_decide_eq_true heq]
      · rw [List.getElem?_eq_getElem (hk.trans hj)]
        intro hsome
        exact hbefore k hk (decide_eq_true (Option.some.inj hsome))

/-- An action that finds an entry in front of its own, or its own, opens its own exactly if it
finds that one and no equal entry comes earlier. -/
theorem opens_iff (hv : Valid h) (hfi : f ≤ i) (hi : h.entries[i]? = some item)
    (htext : action.text = actionText item)
    (hopen : h.slotOpenActionUrl action = h.entries[f]?.map h.goToItem) :
    Opens h i action ↔ f = i ∧ ¬ Repeated h i := by
  obtain ⟨hlt, -⟩ := List.getElem?_eq_some_iff.mp hi
  obtain ⟨found, hfound⟩ : ∃ found, h.entries[f]? = some found :=
    ⟨_, List.getElem?_eq_getElem (hfi.trans_lt hlt)⟩
  obtain ⟨j, hjf, hj, hbefore, hgo⟩ := goToItem_of_entry hv hfound
  rw [hfound, Option.map_some, hgo] at hopen
  constructor
  · rintro ⟨item', hi', -, loaded, hloaded, -⟩
    rw [hopen] at hloaded
    have hji : (j : ℤ) = i :=
      congrArg History.current (Prod.mk.inj (Option.some.inj hloaded)).1
    have hfeq : f = i := by omega
    refine ⟨hfeq, ?_⟩
    rintro ⟨k, hk, hrepeat⟩
    refine hbefore k (by omega) ?_
    rw [hrepeat, ← hfeq, hfound]
  · rintro ⟨rfl, hnot⟩
    have hji : j = f := by
      by_contra hne
      exact hnot ⟨j, by omega, hj.trans hfound.symm⟩
    subst hji
    rw [hi] at hfound
    cases hfound
    exact ⟨item, hi, htext, item, hopen, rfl⟩

/-! ### The menus -/

theorem head?_segment {α : Type*} (l : List α) (k : ℕ) {m : ℕ} (hm : 0 < m) :
    ((l.drop k).take m).head? = l[k]? := by
  rw [List.head?_eq_getElem?, List.getElem?_take_of_lt hm, List.getElem?_drop, Nat.add_zero]

theorem getLast?_segment {α : Type*} (l : List α) {k m : ℕ} (hlt : k + m < l.length) :
    ((l.drop k).take (m + 1)).getLast? = l[k + m]? := by
  have hlen : ((l.drop k).take (m + 1)).length - 1 = m := by
    rw [List.length_take, List.length_drop]
    omega
  rw [List.getLast?_eq_getElem?, hlen, List.getElem?_take_of_lt (by omega), List.getElem?_drop]

theorem head?_backItems (hback : h.canGoBack = true) {n : ℤ} (hn : 0 < n) :
    (h.backItems n).head? = h.entries[(max (h.current - n) 0).toNat]? := by
  have hpos := canGoBack_iff.mp hback
  rw [backItems, if_pos hback]
  exact head?_segment _ _ (by omega)

theorem getLast?_forwardItems (hforward : h.canGoForward = true) {k : ℕ}
    (hk : h.current + 1 + k < h.entries.length) :
    (h.forwardItems (k + 1)).getLast? = h.entries[(h.current + 1 + k).toNat]? := by
  obtain ⟨hpos, -⟩ := canGoForward_iff.mp hforward
  have hlast : (min (h.current + (k + 1)) (h.entries.length - 1) - h.current).toNat = k + 1 := by
    omega
  have hindex : (h.current + 1 + k).toNat = (h.current + 1).toNat + k := by omega
  rw [forwardItems, if_pos hforward]
  dsimp only
  rw [hlast, hindex]
  exact getLast?_segment _ (by omega)

/-- What the back menu has for an entry. -/
theorem listsBack_spec (hv : Valid h) (hlists : ListsBack h i action) :
    h.canGoBack = true ∧ (i : ℤ) < h.current ∧ ∃ item, h.entries[i]? = some item ∧
      action = { data := -1 * (h.count - i - 1), text := actionText item } := by
  obtain ⟨k, hk, hi⟩ := hlists
  rw [slotAboutToShowBackMenu] at hk
  cases hback : h.canGoBack with
  | false => simp [backItems, hback] at hk
  | true =>
      obtain ⟨hpos, hlt⟩ := hv.canGoBack hback
      have hitems : h.backItems h.count = h.entries.take h.current.toNat := by
        have hfirst : max (h.current - h.count) 0 = 0 := by
          rw [count]
          omega
        rw [backItems, if_pos hback, hfirst]
        dsimp only
        rw [Int.sub_zero, Int.toNat_zero, List.drop_zero]
      have hlen : (h.backItems h.count).zipIdx.length = h.current.toNat := by
        rw [hitems, List.length_zipIdx, List.length_take]
        omega
      dsimp only at hk
      rw [List.getElem?_map] at hk
      obtain ⟨e, he, rfl⟩ := Option.map_eq_some_iff.mp hk
      obtain ⟨hkl, -⟩ := List.getElem?_eq_some_iff.mp he
      rw [List.length_reverse, hlen] at hkl
      rw [List.getElem?_reverse (by rw [hlen]; exact hkl), hlen,
        show h.current.toNat - 1 - k = i by omega, List.getElem?_zipIdx, hitems,
        List.getElem?_take_of_lt (by omega)] at he
      obtain ⟨item, hitem, rfl⟩ := Option.map_eq_some_iff.mp he
      refine ⟨rfl, by omega, item, hitem, ?_⟩
      rw [Nat.zero_add]

/-- What the forward menu has for an entry. -/
theorem listsForward_spec (hlists : ListsForward h i action) :
    h.canGoForward = true ∧ ∃ k : ℕ, (i : ℤ) = h.current + 1 + k ∧ ∃ item,
      h.entries[i]? = some item ∧ action = { data := h.count - k, text := actionText item } := by
  obtain ⟨k, hk, hi⟩ := hlists
  rw [slotAboutToShowForwardMenu] at hk
  cases hforward : h.canGoForward with
  | false => simp [forwardItems, hforward] at hk
  | true =>
      obtain ⟨hpos, hlt⟩ := canGoForward_iff.mp hforward
      dsimp only at hk
      rw [List.getElem?_map, List.getElem?_zipIdx, forwardItems, if_pos hforward] at hk
      obtain ⟨e, he, rfl⟩ := Option.map_eq_some_iff.mp hk
      obtain ⟨item, hitem, rfl⟩ := Option.map_eq_some_iff.mp he
      obtain ⟨hkl, -⟩ := List.getElem?_eq_some_iff.mp hitem
      rw [List.length_take] at hkl
      rw [List.getElem?_take_of_lt (by omega), List.getElem?_drop,
        show (h.current + 1).toNat + k = i by omega] at hitem
      exact ⟨rfl, k, hi, item, hitem, by rw [Nat.zero_add]⟩

/-- The back menu counts from the end of the history instead of from the current entry. -/
theorem opens_back_iff (hv : Valid h) (hlists : ListsBack h i action) :
    Opens h i action ↔ (h.canGoForward = false ∨ i = 0) ∧ ¬ Repeated h i := by
  obtain ⟨hback, hi, item, hitem, rfl⟩ := listsBack_spec hv hlists
  obtain ⟨hpos, hlt⟩ := hv.canGoBack hback
  rw [opens_iff (f := (max (h.current - (h.count - i - 1)) 0).toNat) hv ?_ hitem rfl ?_]
  · refine and_congr_left fun _ => ?_
    rw [Bool.eq_false_iff, ne_eq, canGoForward_iff, count]
    omega
  · rw [count]
    omega
  · have hneg : -1 * (h.count - i - 1) < 0 := by
      rw [count]
      omega
    rw [slotOpenActionUrl]
    dsimp only
    rw [if_pos hneg, head?_backItems hback (by omega)]
    congr 3
    omega

theorem opens_forward_iff (hv : Valid h) (hlists : ListsForward h i action) :
    Opens h i action ↔ ¬ Repeated h i := by
  obtain ⟨hforward, k, hi, item, hitem, rfl⟩ := listsForward_spec hlists
  obtain ⟨hpos, -⟩ := canGoForward_iff.mp hforward
  obtain ⟨hlt, -⟩ := List.getElem?_eq_some_iff.mp hitem
  rw [opens_iff (f := i) hv le_rfl hitem rfl ?_]
  · simp
  · have hdata : h.count - k > 0 := by
      rw [count]
      omega
    rw [slotOpenActionUrl]
    dsimp only
    rw [if_neg (by omega), if_pos hdata, show h.count - (h.count - k) + 1 = k + 1 by omega,
      getLast?_forwardItems hforward (by omega), ← hi, Int.toNat_natCast]

/-- **The menus.** In every history the current entry is valid. A forward action opens its
entry exactly if no equal entry comes earlier, and a back action if moreover there is nothing
to go forward to or the entry is the first one. -/
theorem menus_run (calls : List HistoryCall) :
    Valid (run calls) ∧
      (∀ i action, ListsBack (run calls) i action → (Opens (run calls) i action ↔
        ((run calls).canGoForward = false ∨ i = 0) ∧ ¬ Repeated (run calls) i)) ∧
      ∀ i action, ListsForward (run calls) i action →
        (Opens (run calls) i action ↔ ¬ Repeated (run calls) i) :=
  ⟨valid_run calls, fun _ _ hlists => opens_back_iff (valid_run calls) hlists,
    fun _ _ hlists => opens_forward_iff (valid_run calls) hlists⟩

/-- Four pages one after the other. -/
def fourPages : List HistoryCall :=
  ["a", "b", "c", "d"].map fun url => .addItem { url := QString.ofString url }

theorem menus_run_last :
    Opens (run fourPages) 2 { data := -1, text := QString.ofString "c" } := by
  refine ((menus_run fourPages).2.1 2 _ ⟨0, by decide, by decide⟩).mpr ⟨.inl (by decide), ?_⟩
  rintro ⟨j, hj, hrepeat⟩
  revert j
  decide

/-- One page back from the last, the entry of the second page leads to the first. -/
theorem second_page_not_opened :
    ListsBack (run (fourPages ++ [.back])) 1 { data := -2, text := QString.ofString "b" } ∧
      ¬ Opens (run (fourPages ++ [.back])) 1 { data := -2, text := QString.ofString "b" } := by
  have hlists : ListsBack (run (fourPages ++ [.back])) 1
      { data := -2, text := QString.ofString "b" } := ⟨0, by decide, by decide⟩
  refine ⟨hlists, fun hopens => ?_⟩
  have hcondition := ((opens_back_iff (valid_run _) hlists).mp hopens).1
  exact absurd hcondition (by decide)

end OpBrowser.Ui.History
