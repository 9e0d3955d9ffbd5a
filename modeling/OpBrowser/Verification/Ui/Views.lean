import OpBrowser.Model.Ui.BrowserApplication
import Mathlib.Data.List.Basic

/-! # The tabs of all windows

A message changes the tab at one position, adds one or removes one. All tabs in order are
a list in which that tab stands between those before it and those behind it. -/

namespace OpBrowser.Ui

variable {env : UiEnv}

/-- All tabs, in the order of windows and tabs. -/
def State.views (s : State env) : List (WebView env) := s.windows.flatMap Window.tabs

variable {s : State env} {pos : Position} {view : WebView env} {window : Window env}
  {windows : List (Window env)}

/-! ### Positions -/

theorem split_of_getElem? {α : Type*} {l : List α} {i : ℕ} {a : α} (h : l[i]? = some a) :
    ∃ pre post, l = pre ++ a :: post ∧ pre.length = i := by
  induction l generalizing i with
  | nil => cases h
  | cons b l ih =>
      cases i with
      | zero =>
          rw [List.getElem?_cons_zero] at h
          cases h
          exact ⟨[], l, rfl, rfl⟩
      | succ i =>
          rw [List.getElem?_cons_succ] at h
          obtain ⟨pre, post, hl, hi⟩ := ih h
          exact ⟨b :: pre, post, by rw [hl]; rfl, by rw [List.length_cons, hi]⟩

theorem modify_split {α : Type*} (pre : List α) (a : α) (post : List α) (f : α → α) :
    (pre ++ a :: post).modify pre.length f = pre ++ f a :: post := by
  induction pre with
  | nil => rfl
  | cons b pre ih => exact congrArg (b :: ·) ih

theorem eraseIdx_split {α : Type*} (pre : List α) (a : α) (post : List α) :
    (pre ++ a :: post).eraseIdx pre.length = pre ++ post := by
  induction pre with
  | nil => rfl
  | cons b pre ih => exact congrArg (b :: ·) ih

theorem viewAt_eq_some : s.viewAt pos = some view ↔
    ∃ window, s.windows[pos.1]? = some window ∧ window.tabs[pos.2]? = some view := by
  rw [State.viewAt]
  exact Option.bind_eq_some_iff

/-- The tab at a position, between the other ones. -/
theorem viewAt_split (h : s.viewAt pos = some view) :
    ∃ pre post, s.views = pre ++ view :: post ∧
      (∀ view', (s.setView pos view').views = pre ++ view' :: post) ∧
      (s.windowCloseRequested pos).1.views = pre ++ post := by
  obtain ⟨window, hwindow, hview⟩ := viewAt_eq_some.1 h
  obtain ⟨before, behind, hwindows, hi⟩ := split_of_getElem? hwindow
  obtain ⟨pre, post, htabs, hj⟩ := split_of_getElem? hview
  refine ⟨before.flatMap Window.tabs ++ pre, post ++ behind.flatMap Window.tabs, ?_,
    fun view' => ?_, ?_⟩
  · simp [State.views, hwindows, htabs]
  · rw [State.views, State.setView, hwindows, ← hi, modify_split]
    simp [Window.setTab, htabs, ← hj]
  · rw [State.windowCloseRequested, hwindow, h]
    dsimp only
    split
    · simp [State.views, hwindows, ← hi, Window.closeTab, htabs, ← hj, eraseIdx_split]
    · rename_i hone
      rw [htabs, List.length_append, List.length_cons] at hone
      obtain rfl := List.eq_nil_of_length_eq_zero (l := pre) (by omega)
      obtain rfl := List.eq_nil_of_length_eq_zero (l := post) (by omega)
      simp [State.views, hwindows, ← hi, eraseIdx_split]

theorem viewAt_current (h : s.windows = window :: windows) :
    s.viewAt (0, window.current) = some window.currentTab := by
  refine viewAt_eq_some.2 ⟨window, by rw [h]; rfl, ?_⟩
  exact List.getElem?_eq_getElem window.valid

theorem mem_views (h : s.viewAt pos = some view) : view ∈ s.views := by
  obtain ⟨pre, post, hviews, -⟩ := viewAt_split h
  rw [hviews]
  exact List.mem_append_right _ List.mem_cons_self

theorem currentTab_mem (h : s.windows = window :: windows) : window.currentTab ∈ s.views :=
  mem_views (viewAt_current h)

/-! ### Methods of a tab -/

/-- What a method of a tab does to all tabs. -/
theorem onView_split (h : s.viewAt pos = some view)
    (f : WebView env → WebView env × List Message) :
    ∃ s' pre post, s.onView pos f = (s', (f view).2) ∧ s.views = pre ++ view :: post ∧
      s'.views = pre ++ (f view).1 :: post := by
  obtain ⟨pre, post, hviews, hset, -⟩ := viewAt_split h
  refine ⟨s.setView pos (f view).1, pre, post, ?_, hviews, hset (f view).1⟩
  rw [State.onView, h]

theorem embedFrame_none (h : s.viewAt pos = some view) {msg : Message}
    (hembed : view.embedFrame s.nextWinId msg = none) : s.embedFrame pos msg = none := by
  simp [State.embedFrame, h, hembed]

theorem embedFrame_split (h : s.viewAt pos = some view) {msg : Message} {view' : WebView env}
    {sent : List Message} (hembed : view.embedFrame s.nextWinId msg = some (view', sent)) :
    ∃ s' pre post, s.embedFrame pos msg = some (s', sent) ∧ s.views = pre ++ view :: post ∧
      s'.views = pre ++ view' :: post := by
  obtain ⟨pre, post, hviews, hset, -⟩ := viewAt_split h
  let next := s.setView pos view'
  refine ⟨{ next with nextWinId := s.nextWinId + 1 }, pre, post, ?_, hviews, hset view'⟩
  rw [State.embedFrame, h, Option.bind_eq_bind, Option.bind_some, hembed]
  rfl

/-! ### The view that a message is for -/

theorem findView_eq_some {p : WebView env → Bool} (h : findView p s.windows = some pos) :
    ∃ view, s.viewAt pos = some view ∧ p view = true := by
  obtain ⟨windows, nextWinId, downloads⟩ := s
  induction windows generalizing pos with
  | nil => cases h
  | cons window windows ih =>
      rw [findView] at h
      split at h
      · rename_i index hindex
        cases h
        rw [List.findIdx?_eq_some_iff_getElem] at hindex
        obtain ⟨hlt, hp, -⟩ := hindex
        exact ⟨window.tabs[index], viewAt_eq_some.2 ⟨window, rfl, List.getElem?_eq_getElem hlt⟩, hp⟩
      · rw [Option.map_eq_some_iff] at h
        obtain ⟨pos', hpos', rfl⟩ := h
        obtain ⟨view, hview, hp⟩ := ih hpos'
        obtain ⟨window', hwindow', hview⟩ := viewAt_eq_some.1 hview
        exact ⟨view, viewAt_eq_some.2 ⟨window', hwindow', hview⟩, hp⟩

theorem findView_eq_none {p : WebView env → Bool} (h : findView p windows = none) :
    ∀ view ∈ windows.flatMap Window.tabs, p view = false := by
  induction windows with
  | nil => simp
  | cons window windows ih =>
      rw [findView] at h
      split at h
      · cases h
      · rename_i hnone
        rw [Option.map_eq_none_iff] at h
        rw [List.findIdx?_eq_none_iff] at hnone
        intro view hview
        rw [List.flatMap_cons, List.mem_append] at hview
        cases hview with
        | inl hview => exact hnone view hview
        | inr hview => exact ih h view hview

theorem destView_eq_some {clientId containerId : I32}
    (h : destView clientId containerId s.windows = some pos) :
    ∃ view, s.viewAt pos = some view ∧
      (view.clientId = clientId ∨ view.containerId = containerId) := by
  cases hwindows : s.windows with
  | nil => rw [hwindows] at h; cases h
  | cons window windows =>
      rw [hwindows] at h
      simp only [destView] at h
      split at h
      · rename_i hcurrent
        cases h
        exact ⟨window.currentTab, viewAt_current hwindows, of_decide_eq_true hcurrent⟩
      · rw [← hwindows] at h
        obtain ⟨view, hview, hp⟩ := findView_eq_some h
        exact ⟨view, hview, of_decide_eq_true hp⟩

/-- Without a destination no tab has the client or the container. -/
theorem destView_eq_none {clientId containerId : I32}
    (h : destView clientId containerId s.windows = none) :
    ∀ view ∈ s.views, view.clientId ≠ clientId ∧ view.containerId ≠ containerId := by
  have hfind : findView (fun view : WebView env =>
      decide (view.clientId = clientId ∨ view.containerId = containerId)) s.windows = none := by
    cases hwindows : s.windows with
    | nil => rfl
    | cons window windows =>
        rw [hwindows] at h
        simp only [destView] at h
        split at h
        · cases h
        · exact h
  intro view hview
  have hp := findView_eq_none hfind view hview
  rwa [decide_eq_false_iff_not, not_or] at hp

/-! ### Messages by type -/

variable {msg : Message}

theorem dispatch_newWebapp (h : s.windows = window :: windows)
    (htype : msg.msgType = msgNewWebapp) :
    dispatch s msg = (destView msg.srcId (atoi msg.stringData) s.windows).elim
      (if window.currentTab.clientId = 0 then
        some (s.onView (0, window.current) (WebView.handleEmbed msg))
      else if atoi msg.stringData = 2 then some (s.embedInTab false msg)
      else if atoi msg.stringData = 3 then some (s.embedInTab true msg)
      else if atoi msg.stringData = 4 then some (s.embedInWindow msg)
      else if atoi msg.stringData = 5 then
        some (s.onView (0, window.current) (WebView.prepFrame msg))
      else if atoi msg.stringData > 5 then s.embedFrame (0, window.current) msg
      else some (s, []))
      fun pos => some (s.onView pos (WebView.handleEmbed msg)) := by
  rw [dispatch, h]
  simp only [htype, if_true]
  cases destView msg.srcId (atoi msg.stringData) (window :: windows) <;> rfl

theorem dispatch_navSetWebapp (h : s.windows = window :: windows)
    (htype : msg.msgType = msgNavSetWebapp) :
    dispatch s msg = (destView msg.srcId 0 s.windows).elim (some (s, [])) fun pos =>
      some (s.onView pos fun view =>
        (view.navToNewUrl (QString.fromAscii msg.payload.data), [])) := by
  have hnew : msg.msgType ≠ msgNewWebapp := by rw [htype]; decide
  rw [dispatch, h]
  dsimp only
  rw [if_neg hnew, if_neg hnew, if_pos htype]
  cases destView msg.srcId 0 (window :: windows) <;> rfl

theorem dispatch_embedFrame (h : s.windows = window :: windows)
    (htype : msg.msgType = msgEmbedFrame) :
    dispatch s msg = s.embedFrame (0, window.current) msg := by
  have hnew : msg.msgType ≠ msgNewWebapp := by rw [htype]; decide
  have hnav : msg.msgType ≠ msgNavSetWebapp := by rw [htype]; decide
  rw [dispatch, h]
  dsimp only
  rw [if_neg hnew, if_neg hnav, if_pos htype]

theorem dispatch_uiMsg (h : s.windows = window :: windows) (htype : msg.msgType = msgUiMsg) :
    dispatch s msg = (destView msg.srcId 0 s.windows).elim (some (s, [])) fun pos =>
      some (if msg.msgValue = msgWindowCloseRequested then s.windowCloseRequested pos
        else s.onView pos fun view => (view.dispatchUIMsg msg, [])) := by
  have hnew : msg.msgType ≠ msgNewWebapp := by rw [htype]; decide
  have hnav : msg.msgType ≠ msgNavSetWebapp := by rw [htype]; decide
  have hframe : msg.msgType ≠ msgEmbedFrame := by rw [htype]; decide
  rw [dispatch, h]
  dsimp only
  rw [if_neg hnew, if_neg hnew, if_neg hnav, if_neg hframe, if_pos htype]
  cases destView msg.srcId 0 (window :: windows) with
  | none => rfl
  | some pos => exact (apply_ite some _ _ _).symm

end OpBrowser.Ui
