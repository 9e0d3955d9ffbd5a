import OpBrowser.Model.WebPage
import OpBrowser.Verification.Texts.Latin1
import OpBrowser.Verification.Ui.Announced

/-! # The messages about the frames of a page

The page names its frames, the kernel announces the web apps for them and the page lays the
frames out. -/

namespace OpBrowser.Ui

open FrameInit

/-- What frames need of Qt besides variants that give back what they are made of. -/
structure UiEnv.Lawful (env : UiEnv) : Prop where
  toString_ofByteArray : ∀ b, env.toString (env.ofByteArray b) = QString.fromAscii b
  stringToInt_arg : ∀ n, -2 ^ 31 ≤ n → n < 2 ^ 31 → env.stringToInt (QString.arg n) = n

/-- A frame of a page, and the web app that was created for it. -/
structure SubFrame where
  name : QString
  clientId : I32
  clientWId : I32
  deriving DecidableEq

/-- What reaches the user interface on behalf of a frame. -/
inductive FrameEvent where
  | name (f : SubFrame)
  | announce (f : SubFrame)
  | layout (f : SubFrame) (geometry : Geometry)

namespace FrameEvent

/-- The message to the user interface. -/
def message (page : I32) : FrameEvent → Message
  | .name f => embedFrame page 0 f.name
  | .announce f =>
      { srcId := f.clientId
        dstId := uiId
        msgType := msgNewWebapp
        msgValue := f.clientWId
        payload := .ofBytes (decimal 5) }
  | .layout f geometry => handleFrameLayoutComplete page geometry f.name

def announced? : FrameEvent → Option SubFrame
  | .announce f => some f
  | _ => none

def laidOut? : FrameEvent → Option SubFrame
  | .layout f _ => some f
  | _ => none

end FrameEvent

/-- The sides of the geometry are numbers of type `int`. -/
structure Geometry.IsInt (geometry : Geometry) : Prop where
  x : -2 ^ 31 ≤ geometry.x ∧ geometry.x < 2 ^ 31
  y : -2 ^ 31 ≤ geometry.y ∧ geometry.y < 2 ^ 31
  width : -2 ^ 31 ≤ geometry.width ∧ geometry.width < 2 ^ 31
  height : -2 ^ 31 ≤ geometry.height ∧ geometry.height < 2 ^ 31

variable {env : UiEnv} {s s' : State env} {pos : Position} {view view' : WebView env}
  {window : Window env} {windows : List (Window env)} {page : I32} {f : SubFrame}
  {geometry : Geometry} {e : FrameEvent} {fs : List SubFrame}

/-- The tab gets one more frame, with the web app of this one at this geometry. -/
def Embeds (f : SubFrame) (geometry : Geometry) (view view' : WebView env) : Prop :=
  ∃ frame, view'.iframes = view.iframes ++ [frame] ∧ frame.clientId = f.clientId ∧
    frame.clientWId = f.clientWId ∧ frame.geometry = geometry

/-- What an event is to do to the tab at a position. -/
def FrameEvent.Shown (pos : Position) (s s' : State env) : FrameEvent → Prop
  | .layout f geometry => ∃ view view', s.viewAt pos = some view ∧ s'.viewAt pos = some view' ∧
      Embeds f geometry view view'
  | _ => True

/-- The tab is the current one of the first window. -/
def IsCurrent (pos : Position) (s : State env) : Prop :=
  ∃ window windows, s.windows = window :: windows ∧ pos = (0, window.current)

/-- The parts of the message with a layout. -/
theorem split_layout (henv : env.Lawful) (hname : QString.comma ∉ f.name) :
    (env.toString (env.ofByteArray
        (handleFrameLayoutComplete page geometry f.name).payload.data)).splitOn QString.comma =
      [QString.arg geometry.height, QString.arg geometry.width, QString.arg geometry.x,
        QString.arg geometry.y, QString.fromAscii f.name.toLatin1] := by
  rw [henv.toString_ofByteArray]
  simp only [handleFrameLayoutComplete, embedFrame, Payload.ofBytes, List.append_assoc,
    List.cons_append, List.nil_append, fromAscii_arg]
  rw [List.splitOn_append_cons_self_of_not_mem (comma_notMem_arg _),
    List.splitOn_append_cons_self_of_not_mem (comma_notMem_arg _),
    List.splitOn_append_cons_self_of_not_mem (comma_notMem_arg _),
    List.splitOn_append_cons_self_of_not_mem (comma_notMem_arg _),
    List.splitOn_eq_singleton (comma_notMem_fromAscii hname)]

/-- The page names a frame in the call before the one that asks for its web app. -/
theorem sent_name {k : WebPage.QtWebKit} {c : WebPage.Settings} {v : WebPage.View k}
    {request : Request k.toQt} {type : WebPage.NavigationType}
    (hscheme : ¬ (k.scheme request.url = "mailto" ∨ k.scheme request.url = "ftp"))
    (hcrawler : c.crawler = false) (htype : type ≠ .linkClicked) (hframe : c.iframeHandled = true)
    (hurl : k.toStringRemovePath request.url ≠ k.toStringRemovePath (WebPage.url v))
    (hblank : k.toString request.url ≠ "about:blank") :
    ∃ call ask : Message,
      (WebPage.acceptNavigationRequest c v (.sub f.name.toLatin1) request type).2.sent =
        v.sent ++ [call, ask] ∧
      { call with srcId := page } = (FrameEvent.name f).message page ∧
      ask.msgType = msgNewUrl ∧ ask.msgValue = 5 := by
  let call : Message :=
    { dstId := kernelId, msgType := msgEmbedFrame, msgValue := 0
      payload := .ofBytes f.name.toLatin1 }
  let ask : Message :=
    { dstId := kernelId, msgType := msgNewUrl, msgValue := 5
      payload := .ofBytes (WebView.encodedNewUrlMsg k.toQt request) }
  refine ⟨call, ask, ?_, rfl, rfl, rfl⟩
  have hurl' : ∀ posted, k.toStringRemovePath request.url ≠
      k.toStringRemovePath (WebPage.url { v with posted }) := fun _ => hurl
  simp only [WebPage.acceptNavigationRequest, if_neg hscheme, hcrawler, htype, hframe, hblank,
    hurl', Bool.false_eq_true, if_false, false_and, ne_eq, not_false_eq_true, and_self, if_true,
    WebPage.loadElsewhere, WebPage.sendSysCall, List.append_assoc]
  rfl

/-! ### Positions -/

theorem viewAt_setView_self (h : s.viewAt pos = some view) (view' : WebView env) :
    (s.setView pos view').viewAt pos = some view' := by
  obtain ⟨window, hwindow, hview⟩ := viewAt_eq_some.1 h
  obtain ⟨hlt, -⟩ := List.getElem?_eq_some_iff.1 hview
  refine viewAt_eq_some.2 ⟨window.setTab pos.2 view', ?_, List.getElem?_set_self hlt⟩
  rw [State.setView, List.getElem?_modify_eq, hwindow]
  rfl

theorem viewAt_setView_ne {pos' : Position} (h : pos ≠ pos') (view' : WebView env) :
    (s.setView pos' view').viewAt pos = s.viewAt pos := by
  rw [State.viewAt, State.viewAt, State.setView, List.getElem?_modify]
  cases hwindow : s.windows[pos.1]? with
  | none => rfl
  | some window =>
      simp only [Option.map_eq_map, Option.map_some, Option.bind_eq_bind, Option.bind_some]
      split
      · rename_i hsame
        have hne : pos'.2 ≠ pos.2 := fun heq => h (Prod.ext hsame.symm heq.symm)
        exact List.getElem?_set_ne hne
      · rfl

/-- The first window keeps its current tab, whichever tab changes. -/
theorem windows_setView (h : s.windows = window :: windows) (pos : Position)
    (view' : WebView env) : ∃ window' windows',
      (s.setView pos view').windows = window' :: windows' ∧ window'.current = window.current := by
  rw [State.setView, h]
  cases pos.1 with
  | zero => exact ⟨window.setTab pos.2 view', windows, rfl, rfl⟩
  | succ i => exact ⟨window, windows.modify i (Window.setTab pos.2 view'), rfl, rfl⟩

theorem IsCurrent.setView (h : IsCurrent pos s) (pos' : Position) (view' : WebView env) :
    IsCurrent pos (s.setView pos' view') := by
  obtain ⟨window, windows, hwindows, rfl⟩ := h
  obtain ⟨window', windows', hwindows', hcurrent⟩ := windows_setView hwindows pos' view'
  exact ⟨window', windows', hwindows', by rw [hcurrent]⟩

theorem windows_onView (h : s.windows = window :: windows) (pos : Position)
    (method : WebView env → WebView env × List Message) :
    ∃ window' windows', (s.onView pos method).1.windows = window' :: windows' ∧
      window'.current = window.current := by
  rw [State.onView]
  cases hview : s.viewAt pos with
  | none => exact ⟨window, windows, h, rfl⟩
  | some view => exact windows_setView h pos (method view).1

theorem embedFrame_some (h : s.viewAt pos = some view) {msg : Message} {sent : List Message}
    (hembed : view.embedFrame s.nextWinId msg = some (view', sent)) :
    s.embedFrame pos msg =
      some ({ s.setView pos view' with nextWinId := s.nextWinId + 1 }, sent) := by
  rw [State.embedFrame, h, Option.bind_eq_bind, Option.bind_some, hembed]
  rfl

/-! ### Names and announcements -/

theorem container_announce (f : SubFrame) (page : I32) :
    atoi ((FrameEvent.announce f).message page).stringData = 5 :=
  (by decide : atoi (decimal 5) = 5)

/-- A name or an announcement is handled, and the current tab stays the current one. -/
theorem dispatch_not_layout (h : s.windows = window :: windows) (he : e.laidOut? = none)
    (page : I32) : ∃ s' sent window' windows', dispatch s (e.message page) = some (s', sent) ∧
      s'.windows = window' :: windows' ∧ window'.current = window.current := by
  cases e with
  | name f =>
      have hname : ((FrameEvent.name f).message page).msgValue = 0 := rfl
      have hdispatch := embedFrame_some (viewAt_current h) (embedFrame_name hname)
      rw [← dispatch_embedFrame h rfl] at hdispatch
      obtain ⟨window', windows', hwindows', hcurrent⟩ := windows_setView h (0, window.current) _
      exact ⟨_, [], window', windows', hdispatch, hwindows', hcurrent⟩
  | announce f =>
      have hdispatch := dispatch_newWebapp h
        (rfl : ((FrameEvent.announce f).message page).msgType = msgNewWebapp)
      rw [container_announce] at hdispatch
      have hplaced : ∃ pos' method, dispatch s ((FrameEvent.announce f).message page) =
          some (s.onView pos' method) := by
        rw [hdispatch]
        cases destView _ 5 s.windows with
        | none =>
            rw [Option.elim_none]
            split
            · exact ⟨_, _, rfl⟩
            · exact ⟨_, _, rfl⟩
        | some pos => exact ⟨_, _, rfl⟩
      obtain ⟨pos', method, hplaced⟩ := hplaced
      obtain ⟨window', windows', hwindows', hcurrent⟩ := windows_onView h pos' method
      exact ⟨_, _, window', windows', hplaced, hwindows', hcurrent⟩
  | layout f geometry => cases he

/-- A layout goes past a tab that is not the current one. -/
theorem not_shown_behind (h : s.windows = window :: windows) (hpos : pos ≠ (0, window.current))
    {sent : List Message}
    (hdispatch : dispatch s ((FrameEvent.layout f geometry).message page) = some (s', sent)) :
    ¬ (FrameEvent.layout f geometry).Shown pos s s' := by
  rintro ⟨view, view', hview, hview', frame, hframes, -⟩
  rw [dispatch_embedFrame h rfl] at hdispatch
  cases hembed : window.currentTab.embedFrame s.nextWinId
      ((FrameEvent.layout f geometry).message page) with
  | none =>
      rw [embedFrame_none (viewAt_current h) hembed] at hdispatch
      cases hdispatch
  | some result =>
      rw [embedFrame_some (viewAt_current h) hembed] at hdispatch
      cases hdispatch
      have hsame : (s.setView (0, window.current) result.1).viewAt pos = some view := by
        rw [viewAt_setView_ne hpos, hview]
      cases hsame.symm.trans hview'
      simp at hframes

/-! ### The current tab -/

/-- The tab with this view is the current one, and the web apps of these frames go to none. -/
structure AtFront (fs : List SubFrame) (s : State env) (pos : Position) (view : WebView env) :
    Prop where
  current : IsCurrent pos s
  shown : s.viewAt pos = some view
  taken : view.clientId ≠ 0
  created : ∀ f ∈ fs, f.clientId ≠ 0 ∧ f.clientWId ≠ 0
  unheld : ∀ view ∈ s.views, view.containerId ≠ 5 ∧ ∀ f ∈ fs, view.clientId ≠ f.clientId

theorem AtFront.setView (h : AtFront fs s pos view) (hclient : view'.clientId = view.clientId)
    (hcontainer : view'.containerId = view.containerId) :
    AtFront fs (s.setView pos view') pos view' where
  current := h.current.setView pos view'
  shown := viewAt_setView_self h.shown view'
  taken := by rw [hclient]; exact h.taken
  created := h.created
  unheld other hother := by
    obtain ⟨pre, post, hviews, hset, -⟩ := viewAt_split h.shown
    rw [hset] at hother
    obtain hother | rfl | hother : other ∈ pre ∨ other = view' ∨ other ∈ post := by
      simpa using hother
    · exact h.unheld other (by simp [hviews, hother])
    · rw [hclient, hcontainer]
      exact h.unheld view (mem_views h.shown)
    · exact h.unheld other (by simp [hviews, hother])

/-- The same with another id for the next window. -/
theorem AtFront.setView_next (h : AtFront fs s pos view) (view' : WebView env)
    (hclient : view'.clientId = view.clientId) (hcontainer : view'.containerId = view.containerId)
    (nextWinId : I32) :
    AtFront fs { s.setView pos view' with nextWinId } pos view' := by
  have hset := h.setView hclient hcontainer
  exact ⟨hset.current, hset.shown, hset.taken, hset.created, hset.unheld⟩

/-- What a tab is after the name of a frame. -/
def WebView.withName (f : SubFrame) (view : WebView env) : WebView env :=
  { view with iframenames := view.iframenames ++ [QString.fromAscii f.name.toLatin1] }

/-- What a tab is after the announcement of the web app of a frame. -/
def WebView.withWebapp (f : SubFrame) (view : WebView env) : WebView env :=
  { view with
    iframewids := view.iframewids ++ [f.clientWId]
    iframeclientids := view.iframeclientids ++ [f.clientId] }

theorem AtFront.name (henv : env.Lawful) (h : AtFront fs s pos view) (f : SubFrame) (page : I32) :
    ∃ s' sent, dispatch s ((FrameEvent.name f).message page) = some (s', sent) ∧
      AtFront fs s' pos (view.withName f) := by
  obtain ⟨window, windows, hwindows, rfl⟩ := h.current
  have hname : ((FrameEvent.name f).message page).msgValue = 0 := rfl
  have hdispatch := embedFrame_some h.shown (embedFrame_name hname)
  rw [← dispatch_embedFrame hwindows rfl, henv.toString_ofByteArray] at hdispatch
  exact ⟨_, [], hdispatch, h.setView_next (view.withName f) rfl rfl _⟩

theorem AtFront.announce (h : AtFront fs s pos view) (hf : f ∈ fs) (page : I32) :
    ∃ s' sent, dispatch s ((FrameEvent.announce f).message page) = some (s', sent) ∧
      AtFront fs s' pos (view.withWebapp f) := by
  obtain ⟨window, windows, hwindows, hpos⟩ := h.current
  have htab : window.currentTab = view := by
    have hview := h.shown
    rw [hpos, viewAt_current hwindows] at hview
    exact Option.some_inj.1 hview
  have hdispatch := dispatch_newWebapp hwindows
    (rfl : ((FrameEvent.announce f).message page).msgType = msgNewWebapp)
  have hdest : destView f.clientId 5 s.windows = none := by
    cases hdest : destView f.clientId 5 s.windows with
    | none => rfl
    | some pos' =>
        obtain ⟨other, hother, hkey⟩ := destView_eq_some hdest
        obtain ⟨hcontainer, hclient⟩ := h.unheld other (mem_views hother)
        exact absurd hkey (not_or.2 ⟨hclient f hf, hcontainer⟩)
  have hprepared : (WebView.prepFrame ((FrameEvent.announce f).message page) view) =
      (view.withWebapp f, []) := by
    rw [WebView.prepFrame, if_neg]
    · rfl
    · exact not_or.2 ⟨(h.created f hf).2, (h.created f hf).1⟩
  rw [container_announce, show ((FrameEvent.announce f).message page).srcId = f.clientId from rfl,
    hdest, Option.elim_none, htab, if_neg h.taken, if_neg (by decide), if_neg (by decide),
    if_neg (by decide), if_pos rfl, ← hpos] at hdispatch
  simp only [State.onView, h.shown, hprepared] at hdispatch
  exact ⟨_, _, hdispatch, h.setView rfl rfl⟩

/-- The frame that a layout makes. -/
def newFrame (winId clientId wid : I32) (geometry : Geometry) : FrameView :=
  (FrameView.handleEmbed clientId wid { containerId := winId, geometry }).1

/-- What a tab is after a layout. -/
def WebView.withFrame (frame : FrameView) (clientIds wids : List I32) (view : WebView env) :
    WebView env :=
  { view with
    iframes := view.iframes ++ [frame]
    iframeclientids := clientIds
    iframewids := wids }

section Layout

variable (henv : env.Lawful) (hcomma : QString.comma ∉ f.name)
  (hname : QString.fromAscii f.name.toLatin1 ∈ view.iframenames)

include henv hcomma hname

theorem embedFrame_empty (geometry : Geometry) (page winId : I32)
    (hempty : view.iframeclientids = [] ∨ view.iframewids = []) :
    view.embedFrame winId ((FrameEvent.layout f geometry).message page) = none := by
  have hlays : LaysOut ((FrameEvent.layout f geometry).message page) view := by
    refine ⟨rfl, _, ?_, hname⟩
    rw [layoutName, FrameEvent.message, split_layout henv hcomma]
  obtain ⟨hnone, -⟩ | ⟨frame, sent, clientId, clientIds, wid, wids, hids, hwids, -⟩ :=
    embedFrame_layOut winId hlays
  · exact hnone
  · rw [hids, hwids] at hempty
    simp at hempty

theorem embedFrame_waiting (hint : geometry.IsInt) (page winId : I32) {clientId wid : I32}
    {clientIds wids : List I32} (hids : view.iframeclientids = clientId :: clientIds)
    (hwids : view.iframewids = wid :: wids) :
    ∃ sent, view.embedFrame winId ((FrameEvent.layout f geometry).message page) =
      some (view.withFrame (newFrame winId clientId wid geometry) clientIds wids, sent) := by
  have hvalue : ((FrameEvent.layout f geometry).message page).msgValue = 1 := rfl
  rw [WebView.embedFrame, if_neg (by rw [hvalue]; decide), if_pos hvalue, FrameEvent.message,
    split_layout henv hcomma]
  dsimp only
  rw [if_pos hname, hids, hwids, henv.stringToInt_arg _ hint.x.1 hint.x.2,
    henv.stringToInt_arg _ hint.y.1 hint.y.2,
    henv.stringToInt_arg _ hint.width.1 hint.width.2,
    henv.stringToInt_arg _ hint.height.1 hint.height.2]
  exact ⟨_, rfl⟩

/-- A layout fails without a waiting web app, and else embeds the one that waits longest. -/
theorem AtFront.layout (h : AtFront fs s pos view) (hint : geometry.IsInt) (page : I32) :
    dispatch s ((FrameEvent.layout f geometry).message page) = none ∧
        (view.iframeclientids = [] ∨ view.iframewids = []) ∨
      ∃ s' sent winId clientId clientIds wid wids,
        view.iframeclientids = clientId :: clientIds ∧ view.iframewids = wid :: wids ∧
        dispatch s ((FrameEvent.layout f geometry).message page) = some (s', sent) ∧
        AtFront fs s' pos
          (view.withFrame (newFrame winId clientId wid geometry) clientIds wids) := by
  obtain ⟨window, windows, hwindows, rfl⟩ := h.current
  rw [dispatch_embedFrame hwindows rfl]
  cases hids : view.iframeclientids with
  | nil =>
      have hempty := embedFrame_empty henv hcomma hname geometry page s.nextWinId (Or.inl hids)
      exact Or.inl ⟨embedFrame_none h.shown hempty, Or.inl rfl⟩
  | cons clientId clientIds =>
      cases hwids : view.iframewids with
      | nil =>
          have hempty := embedFrame_empty henv hcomma hname geometry page s.nextWinId (Or.inr hwids)
          exact Or.inl ⟨embedFrame_none h.shown hempty, Or.inr rfl⟩
      | cons wid wids =>
          obtain ⟨sent, hembed⟩ :=
            embedFrame_waiting henv hcomma hname hint page s.nextWinId hids hwids
          have hnext := h.setView_next
            (view.withFrame (newFrame s.nextWinId clientId wid geometry) clientIds wids) rfl rfl
            (s.nextWinId + 1)
          exact Or.inr ⟨_, sent, s.nextWinId, clientId, clientIds, wid, wids, rfl, rfl,
            embedFrame_some h.shown hembed, hnext⟩

end Layout

theorem shown_layout {winId clientId wid : I32} {clientIds wids : List I32}
    (hview : s.viewAt pos = some view) (hview' : s'.viewAt pos =
      some (view.withFrame (newFrame winId clientId wid geometry) clientIds wids)) :
    (FrameEvent.layout f geometry).Shown pos s s' ↔ clientId = f.clientId ∧ wid = f.clientWId := by
  constructor
  · rintro ⟨v, v', hv, hv', frame, hframes, hclient, hwid, -⟩
    cases hview.symm.trans hv
    cases hview'.symm.trans hv'
    have hframe : newFrame winId clientId wid geometry = frame :=
      List.singleton_inj.1 (List.append_cancel_left hframes)
    rw [← hframe] at hclient hwid
    exact ⟨hclient, hwid⟩
  · rintro ⟨hclient, hwid⟩
    exact ⟨view, _, hview, hview', _, rfl, hclient, hwid, rfl⟩

end OpBrowser.Ui
