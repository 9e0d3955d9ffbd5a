import OpBrowser.Verification.Storage.Streams
import OpBrowser.Verification.Ui.Views

/-! # What a web app's messages change in the tabs of others

A frame message goes to the current tab of the first window, whoever sent it. -/

namespace OpBrowser.Ui

variable {env : UiEnv} {s s' : State env} {pos : Position} {view view' : WebView env}
  {window : Window env} {windows : List (Window env)} {msg : Message} {winId : I32}
  {sent : List Message}

/-! ### The tabs of others -/

/-- What belongs to the page in a tab. -/
structure Content (env : UiEnv) where
  containerId : I32
  title : QString
  url : env.QUrl
  progress : I32
  history : History
  iframes : List FrameView
  iframenames : List QString
  iframewids : List I32
  iframeclientids : List I32

def WebView.content (view : WebView env) : Content env where
  containerId := view.containerId
  title := view.title
  url := view.url
  progress := view.progress
  history := view.history
  iframes := view.iframes
  iframenames := view.iframenames
  iframewids := view.iframewids
  iframeclientids := view.iframeclientids

/-- The tabs whose client is not this web app. -/
def others (webapp : I32) (s : State env) : List (Content env) :=
  (s.views.filter (·.clientId ≠ webapp)).map WebView.content

/-- The message is handled, and leaves every tab alone that is not its sender's. -/
def OwnTabOnly (s : State env) (msg : Message) : Prop :=
  ∃ s' sent, dispatch s msg = some (s', sent) ∧ others msg.srcId s' = others msg.srcId s

theorem others_own {pre post : List (WebView env)} (h : s.views = pre ++ view :: post)
    (h' : s'.views = pre ++ view' :: post) {webapp : I32} (hview : view.clientId = webapp)
    (hview' : view'.clientId = webapp) : others webapp s' = others webapp s := by
  simp [others, h, h', hview, hview']

theorem others_closed {pre post : List (WebView env)} (h : s.views = pre ++ view :: post)
    (h' : s'.views = pre ++ post) {webapp : I32} (hview : view.clientId = webapp) :
    others webapp s' = others webapp s := by
  simp [others, h, h', hview]

theorem others_other {pre post : List (WebView env)} (h : s.views = pre ++ view :: post)
    (h' : s'.views = pre ++ view' :: post) {webapp : I32} (hview : view.clientId ≠ webapp)
    (hview' : view'.clientId ≠ webapp) :
    others webapp s' = others webapp s ↔ view'.content = view.content := by
  simp [others, h, h', hview, hview']

/-! ### Frames -/

/-- The name in a message with the layout of a frame. -/
def layoutName (env : UiEnv) (data : Bytes) : Option QString :=
  match (env.toString (env.ofByteArray data)).splitOn QString.comma with
  | [_, _, _, _, frameName] => some frameName
  | _ => none

/-- The message has the layout of a frame of which the tab has the name. -/
def LaysOut (msg : Message) (view : WebView env) : Prop :=
  msg.msgValue = 1 ∧ ∃ name, layoutName env msg.payload.data = some name ∧ name ∈ view.iframenames

/-- There is a client that waits for a frame if the message lays one out. -/
def FrameReady (msg : Message) (view : WebView env) : Prop :=
  LaysOut msg view → view.iframeclientids ≠ [] ∧ view.iframewids ≠ []

/-- The message names no frame, lays none out and embeds nothing that is not embedded. -/
structure FrameIdle (msg : Message) (view : WebView env) : Prop where
  names : msg.msgValue ≠ 0
  laysOut : ¬ LaysOut msg view
  embeds : msg.msgValue ≠ 1 → ∀ frame,
    view.iframes.find? (·.containerId = atoi msg.stringData) = some frame →
      frame.clientId = msg.srcId ∧ frame.clientWId = msg.msgValue

theorem embedFrame_name (h : msg.msgValue = 0) :
    view.embedFrame winId msg = some ({ view with iframenames :=
      view.iframenames ++ [env.toString (env.ofByteArray msg.payload.data)] }, []) :=
  if_pos h

theorem embedFrame_embed (h₀ : msg.msgValue ≠ 0) (h₁ : msg.msgValue ≠ 1) :
    view.embedFrame winId msg =
      let (iframes, sent) := WebView.embedIn view.containerId msg.srcId msg.msgValue
        (atoi msg.stringData) view.iframes
      some ({ view with iframes }, sent) := by
  rw [WebView.embedFrame, if_neg h₀, if_neg h₁]

theorem embedFrame_other (h₁ : msg.msgValue = 1) (h : ¬ LaysOut msg view) :
    view.embedFrame winId msg = some (view, []) := by
  rw [WebView.embedFrame, if_neg (by rw [h₁]; decide), if_pos h₁]
  split
  · rename_i height width x y frameName hattrs
    rw [if_neg]
    exact fun hname => h ⟨h₁, frameName, by simp [layoutName, hattrs], hname⟩
  · rfl

/-- A layout takes the clients that wait longest. -/
theorem embedFrame_layOut (winId : I32) (h : LaysOut msg view) :
    view.embedFrame winId msg = none ∧ (view.iframeclientids = [] ∨ view.iframewids = []) ∨
      ∃ frame sent clientId clientIds wid wids,
        view.iframeclientids = clientId :: clientIds ∧ view.iframewids = wid :: wids ∧
        view.embedFrame winId msg = some ({ view with
          iframes := view.iframes ++ [frame]
          iframeclientids := clientIds
          iframewids := wids }, sent) := by
  obtain ⟨h₁, name, hname, hmem⟩ := h
  rw [layoutName] at hname
  split at hname
  · rename_i height width x y frameName hattrs
    cases hname
    rw [WebView.embedFrame, if_neg (by rw [h₁]; decide), if_pos h₁, hattrs]
    dsimp only
    rw [if_pos hmem]
    cases hids : view.iframeclientids with
    | nil => exact Or.inl ⟨rfl, Or.inl rfl⟩
    | cons clientId clientIds =>
        cases hwids : view.iframewids with
        | nil => exact Or.inl ⟨rfl, Or.inr rfl⟩
        | cons wid wids => exact Or.inr ⟨_, _, _, _, _, _, rfl, rfl, rfl⟩
  · cases hname

/-- Embedding changes no frame exactly if the frame has this client already. -/
theorem embedIn_eq_self {ownId clientId clientWId containerId : I32} {frames : List FrameView} :
    (WebView.embedIn ownId clientId clientWId containerId frames).1 = frames ↔
      ∀ frame, frames.find? (·.containerId = containerId) = some frame →
        frame.clientId = clientId ∧ frame.clientWId = clientWId := by
  induction frames with
  | nil => simp [WebView.embedIn]
  | cons frame frames ih =>
      rw [WebView.embedIn]
      split
      · rename_i hcontainer
        rw [List.find?_cons_of_pos (by simpa using hcontainer)]
        constructor
        · intro h frame' hframe'
          cases hframe'
          have hframe := List.head_eq_of_cons_eq h
          rw [← hframe]
          exact ⟨rfl, rfl⟩
        · intro h
          obtain ⟨rfl, rfl⟩ := h frame rfl
          rfl
      · rename_i hcontainer
        rw [List.find?_cons_of_neg (by simpa using hcontainer), ← ih]
        exact List.cons_inj_right frame

theorem embedFrame_clientId (h : view.embedFrame winId msg = some (view', sent)) :
    view'.clientId = view.clientId := by
  by_cases h₀ : msg.msgValue = 0
  · rw [embedFrame_name h₀] at h
    cases h
    rfl
  · by_cases h₁ : msg.msgValue = 1
    · by_cases hlays : LaysOut msg view
      · obtain ⟨hnone, -⟩ | ⟨frame, sent', clientId, clientIds, wid, wids, -, -, hsome⟩ :=
          embedFrame_layOut winId hlays
        · rw [hnone] at h
          cases h
        · rw [hsome] at h
          cases h
          rfl
      · rw [embedFrame_other h₁ hlays] at h
        cases h
        rfl
    · rw [embedFrame_embed h₀ h₁] at h
      cases h
      rfl

/-- A frame message returns exactly if a client waits for the frame that it lays out. -/
theorem embedFrame_returns_iff (winId : I32) :
    (∃ view' sent, view.embedFrame winId msg = some (view', sent)) ↔ FrameReady msg view := by
  by_cases hlays : LaysOut msg view
  · obtain ⟨hnone, hempty⟩ | ⟨frame, sent, clientId, clientIds, wid, wids, hids, hwids, hsome⟩ :=
      embedFrame_layOut winId hlays
    · rw [hnone]
      constructor
      · rintro ⟨view', sent, h⟩
        cases h
      · intro hready
        exact (hempty.elim (hready hlays).1 (hready hlays).2).elim
    · rw [hsome, FrameReady, hids, hwids]
      simp
  · have hready : FrameReady msg view := fun h => absurd h hlays
    refine ⟨fun _ => hready, fun _ => ?_⟩
    by_cases h₀ : msg.msgValue = 0
    · exact ⟨_, _, embedFrame_name h₀⟩
    · by_cases h₁ : msg.msgValue = 1
      · exact ⟨_, _, embedFrame_other h₁ hlays⟩
      · exact ⟨_, _, embedFrame_embed h₀ h₁⟩

/-- A frame message leaves the tab as it is exactly if it is idle. -/
theorem embedFrame_idle_iff (winId : I32) :
    (∃ view' sent, view.embedFrame winId msg = some (view', sent) ∧
      view'.content = view.content) ↔ FrameIdle msg view := by
  by_cases h₀ : msg.msgValue = 0
  · rw [embedFrame_name h₀]
    constructor
    · rintro ⟨view', sent, h, hcontent⟩
      cases h
      have hnames := congrArg Content.iframenames hcontent
      simp [WebView.content] at hnames
    · exact fun h => absurd h₀ h.names
  · by_cases h₁ : msg.msgValue = 1
    · by_cases hlays : LaysOut msg view
      · refine ⟨fun h => ?_, fun h => absurd hlays h.laysOut⟩
        obtain ⟨view', sent, h, hcontent⟩ := h
        obtain ⟨hnone, -⟩ | ⟨frame, sent', clientId, clientIds, wid, wids, -, -, hsome⟩ :=
          embedFrame_layOut winId hlays
        · rw [hnone] at h
          cases h
        · rw [hsome] at h
          cases h
          have hframes := congrArg Content.iframes hcontent
          simp [WebView.content] at hframes
      · refine ⟨fun _ => ⟨h₀, hlays, fun hne => absurd h₁ hne⟩, fun _ => ?_⟩
        exact ⟨view, [], embedFrame_other h₁ hlays, rfl⟩
    · rw [embedFrame_embed h₀ h₁]
      have hidle : FrameIdle msg view ↔ (WebView.embedIn view.containerId msg.srcId msg.msgValue
          (atoi msg.stringData) view.iframes).1 = view.iframes := by
        rw [embedIn_eq_self]
        exact ⟨fun h => h.embeds h₁, fun h => ⟨h₀, fun hlays => h₁ hlays.1, fun _ => h⟩⟩
      rw [hidle]
      constructor
      · rintro ⟨view', sent, h, hcontent⟩
        cases h
        exact congrArg Content.iframes hcontent
      · intro hframes
        refine ⟨_, _, rfl, ?_⟩
        simp only [WebView.content, WebView.url, hframes]

/-! ### Messages -/

@[simp] theorem clientId_dispatchUIMsg : (view.dispatchUIMsg msg).clientId = view.clientId := by
  simp only [WebView.dispatchUIMsg]
  repeat' split
  all_goals rfl

/-- A destination that is not found by its container has the sender as its client. -/
theorem clientId_of_destView (hids : ∀ view ∈ s.views, view.containerId ≠ 0) {clientId : I32}
    (h : destView clientId 0 s.windows = some pos) :
    ∃ view, s.viewAt pos = some view ∧ view.clientId = clientId := by
  obtain ⟨view, hview, hkey⟩ := destView_eq_some h
  exact ⟨view, hview, hkey.resolve_right (hids view (mem_views hview))⟩

theorem others_onView {clientId : I32} (hview : s.viewAt pos = some view)
    (hclient : view.clientId = clientId) {f : WebView env → WebView env × List Message}
    (hf : (f view).1.clientId = view.clientId) :
    others clientId (s.onView pos f).1 = others clientId s := by
  obtain ⟨s', pre, post, hs', hviews, hviews'⟩ := onView_split hview f
  rw [hs']
  exact others_own hviews hviews' hclient (hf.trans hclient)

/-- A message about the tab itself goes to the sender's tab, if there is one. -/
theorem ownTabOnly_of_dest (hids : ∀ view ∈ s.views, view.containerId ≠ 0)
    {step : Position → State env × List Message}
    (hdispatch : dispatch s msg =
      (destView msg.srcId 0 s.windows).elim (some (s, [])) fun pos => some (step pos))
    (hstep : ∀ pos view, s.viewAt pos = some view → view.clientId = msg.srcId →
      others msg.srcId (step pos).1 = others msg.srcId s) : OwnTabOnly s msg := by
  cases hdest : destView msg.srcId 0 s.windows with
  | none =>
      rw [hdest] at hdispatch
      exact ⟨s, [], hdispatch, rfl⟩
  | some pos =>
      rw [hdest] at hdispatch
      obtain ⟨view, hview, hclient⟩ := clientId_of_destView hids hdest
      exact ⟨_, _, hdispatch, hstep pos view hview hclient⟩

theorem ownTabOnly_uiMsg (hids : ∀ view ∈ s.views, view.containerId ≠ 0)
    (hwindows : s.windows = window :: windows) (htype : msg.msgType = msgUiMsg) :
    OwnTabOnly s msg := by
  refine ownTabOnly_of_dest hids (dispatch_uiMsg hwindows htype) fun pos view hview hclient => ?_
  split
  · obtain ⟨pre, post, hviews, -, hclosed⟩ := viewAt_split hview
    exact others_closed hviews hclosed hclient
  · exact others_onView hview hclient clientId_dispatchUIMsg

theorem ownTabOnly_navSetWebapp (hids : ∀ view ∈ s.views, view.containerId ≠ 0)
    (hwindows : s.windows = window :: windows) (htype : msg.msgType = msgNavSetWebapp) :
    OwnTabOnly s msg :=
  ownTabOnly_of_dest hids (dispatch_navSetWebapp hwindows htype)
    fun _ _ hview hclient => others_onView hview hclient rfl

/-- A frame message is about the current tab of the first window. -/
theorem ownTabOnly_embedFrame_iff (hwindows : s.windows = window :: windows)
    (htype : msg.msgType = msgEmbedFrame) :
    OwnTabOnly s msg ↔
      if window.currentTab.clientId = msg.srcId then FrameReady msg window.currentTab
      else FrameIdle msg window.currentTab := by
  have hdispatch := dispatch_embedFrame hwindows htype
  cases hembed : window.currentTab.embedFrame s.nextWinId msg with
  | none =>
      have hnot : ¬ OwnTabOnly s msg := by
        rintro ⟨s', sent, h, -⟩
        rw [hdispatch, embedFrame_none (viewAt_current hwindows) hembed] at h
        cases h
      refine iff_of_false hnot ?_
      split
      · rw [← embedFrame_returns_iff s.nextWinId]
        simp [hembed]
      · rw [← embedFrame_idle_iff s.nextWinId]
        simp [hembed]
  | some result =>
      obtain ⟨view', sent⟩ := result
      obtain ⟨s', pre, post, hs', hviews, hviews'⟩ :=
        embedFrame_split (viewAt_current hwindows) hembed
      have hclient := embedFrame_clientId hembed
      have hown : OwnTabOnly s msg ↔ others msg.srcId s' = others msg.srcId s := by
        rw [OwnTabOnly, hdispatch, hs']
        simp
      rw [hown]
      split
      · rename_i hsame
        rw [← embedFrame_returns_iff s.nextWinId]
        exact iff_of_true (others_own hviews hviews' hsame (hclient.trans hsame))
          ⟨view', sent, hembed⟩
      · rename_i hother
        rw [others_other hviews hviews' hother (hclient ▸ hother),
          ← embedFrame_idle_iff s.nextWinId]
        simp [hembed]

/-- **Whose tab a message changes.** Messages about a tab change the sender's own tab only.
A frame message does exactly if the current tab of the first window is the sender's and has
a client for the frame, or if it is idle there. -/
theorem ownTabOnly_iff (hids : ∀ view ∈ s.views, view.containerId ≠ 0)
    (hwindows : s.windows = window :: windows)
    (htype : msg.msgType = msgUiMsg ∨ msg.msgType = msgNavSetWebapp ∨
      msg.msgType = msgEmbedFrame) :
    OwnTabOnly s msg ↔ (msg.msgType = msgEmbedFrame →
      if window.currentTab.clientId = msg.srcId then FrameReady msg window.currentTab
      else FrameIdle msg window.currentTab) := by
  obtain htype | htype | htype := htype
  · refine iff_of_true (ownTabOnly_uiMsg hids hwindows htype) fun hframe => ?_
    rw [htype] at hframe
    exact absurd hframe (by decide)
  · refine iff_of_true (ownTabOnly_navSetWebapp hids hwindows htype) fun hframe => ?_
    rw [htype] at hframe
    exact absurd hframe (by decide)
  · rw [ownTabOnly_embedFrame_iff hwindows htype]
    exact ⟨fun h _ => h, fun h => h htype⟩

/-! ### Two tabs -/

/-- Qt as far as the tabs need it. -/
def plainEnv : UiEnv where
  toQtVariants := Streams.variants
  toBool v := v.number ≠ 0
  stringToInt s := atoi s.toLatin1
  selectNewTabs := false
  tabAfterRemove _ index := index - 1

/-- A window with the tabs of two web apps, the first of which is current. -/
def twoTabs : State plainEnv where
  windows :=
    [{ tabs := [{ containerId := 100, clientId := 1024 }, { containerId := 101, clientId := 1025 }]
       current := 0
       valid := by decide }]
  nextWinId := 102

/-- The second web app names a frame. -/
def frameName : Message where
  srcId := 1025
  dstId := uiId
  msgType := msgEmbedFrame
  msgValue := 0
  payload := .ofBytes (bytes "ad")

theorem ownTabOnly_iff_twoTabs : OwnTabOnly twoTabs frameName ↔
    (frameName.msgType = msgEmbedFrame →
      if (twoTabs.windows.get ⟨0, by decide⟩).currentTab.clientId = frameName.srcId then
        FrameReady frameName (twoTabs.windows.get ⟨0, by decide⟩).currentTab
      else FrameIdle frameName (twoTabs.windows.get ⟨0, by decide⟩).currentTab) :=
  ownTabOnly_iff (by simp [State.views, twoTabs]) rfl (Or.inr (Or.inr rfl))

/-- The name of the second web app's frame goes to the tab of the first. -/
theorem frameName_not_ownTabOnly : ¬ OwnTabOnly twoTabs frameName := by
  rw [ownTabOnly_embedFrame_iff rfl rfl, if_neg (by decide)]
  exact fun hidle => hidle.names rfl

end OpBrowser.Ui
