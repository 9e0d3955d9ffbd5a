import OpBrowser.Model.DownloadManager
import OpBrowser.Model.Ui.WebView

/-! # Windows, tabs and the messages to them (op-ui/browserapplication.cpp, op-ui/tabwidget.cpp)

The widget that stands for the first web view of a window until somebody asks for it is
taken for that view. -/

namespace OpBrowser.Ui

variable {env : UiEnv}

/-! ### Windows -/

/-- `BrowserMainWindow`: its tabs, of which one is current. A window closes with its last tab. -/
structure Window (env : UiEnv) where
  tabs : List (WebView env)
  current : ℕ
  valid : current < tabs.length

namespace Window

/-- `BrowserMainWindow::currentTab` -/
def currentTab (window : Window env) : WebView env :=
  window.tabs.get ⟨window.current, window.valid⟩

def setTab (index : ℕ) (view : WebView env) (window : Window env) : Window env where
  tabs := window.tabs.set index view
  current := window.current
  valid := by rw [List.length_set]; exact window.valid

/-- `TabWidget::makeNewTab` -/
def makeNewTab (view : WebView env) (makeCurrent : Bool) (window : Window env) : Window env where
  tabs := window.tabs ++ [view]
  current := if makeCurrent || env.selectNewTabs then window.tabs.length else window.current
  valid := by
    have hvalid := window.valid
    rw [List.length_append, List.length_singleton]
    split <;> omega

/-- `TabWidget::closeTab`, which is called while there are other tabs. -/
def closeTab (index : ℕ) (window : Window env) (h : 1 < window.tabs.length) : Window env where
  tabs := window.tabs.eraseIdx index
  current :=
    if index < window.current then window.current - 1
    else if index = window.current then
      min (env.tabAfterRemove window.tabs.length index) (window.tabs.length - 2)
    else window.current
  valid := by
    have hvalid := window.valid
    rw [List.length_eraseIdx]
    split <;> split <;> try split
    all_goals omega

end Window

/-! ### The application -/

/-- What the messages of web apps change. -/
structure State (env : UiEnv) where
  windows : List (Window env)
  /-- The id that X gives to the next window. -/
  nextWinId : I32
  downloads : List DownloadItem := []

/-- The position of a tab: its window and its index there. -/
abbrev Position := ℕ × ℕ

/-- The first tab in the order of windows and tabs. -/
def findView (p : WebView env → Bool) : List (Window env) → Option Position
  | [] => none
  | window :: windows =>
      match window.tabs.findIdx? p with
      | some index => some (0, index)
      | none => (findView p windows).map fun pos => (pos.1 + 1, pos.2)

/-- The view that a message is for, if it has one. -/
def destView (clientId containerId : I32) (windows : List (Window env)) : Option Position :=
  let p (view : WebView env) : Bool := view.clientId = clientId ∨ view.containerId = containerId
  match windows with
  | [] => none
  | window :: _ => if p window.currentTab then some (0, window.current) else findView p windows

namespace State

variable (s : State env)

def viewAt (pos : Position) : Option (WebView env) := do (← s.windows[pos.1]?).tabs[pos.2]?

def setView (pos : Position) (view : WebView env) : State env :=
  { s with windows := s.windows.modify pos.1 (Window.setTab pos.2 view) }

/-- What a method of the view at a position does. -/
def onView (pos : Position) (f : WebView env → WebView env × List Message) :
    State env × List Message :=
  match s.viewAt pos with
  | none => (s, [])
  | some view =>
      let (view, sent) := f view
      (s.setView pos view, sent)

/-- `TabWidget::windowCloseRequested` -/
def windowCloseRequested (pos : Position) : State env × List Message :=
  match s.windows[pos.1]?, s.viewAt pos with
  | some window, some view =>
      if h : 1 < window.tabs.length then
        ({ s with windows := s.windows.set pos.1 (window.closeTab pos.2 h) }, view.destroyed)
      else ({ s with windows := s.windows.eraseIdx pos.1 }, view.destroyed)
  | _, _ => (s, [])

/-- `makeNewTab(makeCurrent)->handleEmbed(msg)` in the first window. -/
def embedInTab (makeCurrent : Bool) (msg : Message) : State env × List Message :=
  match s.windows with
  | [] => (s, [])
  | window :: windows =>
      let (view, sent) := WebView.handleEmbed msg { containerId := s.nextWinId }
      ({ s with
        windows := window.makeNewTab view makeCurrent :: windows
        nextWinId := s.nextWinId + 1 }, sent)

/-- `newMainWindow()->currentTab()->handleEmbed(msg)` -/
def embedInWindow (msg : Message) : State env × List Message :=
  let (view, sent) := WebView.handleEmbed msg { containerId := s.nextWinId }
  ({ s with
    windows := { tabs := [view], current := 0, valid := Nat.zero_lt_one } :: s.windows
    nextWinId := s.nextWinId + 1 }, sent)

/-- `embedFrame` of the view at a position. -/
def embedFrame (pos : Position) (msg : Message) : Option (State env × List Message) := do
  let view ← s.viewAt pos
  let (view, sent) ← view.embedFrame s.nextWinId msg
  let next := s.setView pos view
  return ({ next with nextWinId := s.nextWinId + 1 }, sent)

end State

/-- `BrowserApplication::dispatch` of one message. There is no result if there is no window or
a frame takes a client from an empty list. -/
def dispatch (s : State env) (msg : Message) : Option (State env × List Message) :=
  let containerId := if msg.msgType = msgNewWebapp then atoi msg.stringData else 0
  match s.windows with
  | [] => none
  | window :: _ =>
      let current : Position := (0, window.current)
      let dest := destView msg.srcId containerId s.windows
      if msg.msgType = msgNewWebapp then
        match dest with
        | some pos => some (s.onView pos (WebView.handleEmbed msg))
        | none =>
            if window.currentTab.clientId = 0 then
              some (s.onView current (WebView.handleEmbed msg))
            else if containerId = 2 then some (s.embedInTab false msg)
            else if containerId = 3 then some (s.embedInTab true msg)
            else if containerId = 4 then some (s.embedInWindow msg)
            else if containerId = 5 then some (s.onView current (WebView.prepFrame msg))
            else if containerId > 5 then s.embedFrame current msg
            else some (s, [])
      else if msg.msgType = msgNavSetWebapp then
        match dest with
        | some pos =>
            some (s.onView pos fun view =>
              (view.navToNewUrl (QString.fromAscii msg.payload.data), []))
        | none => some (s, [])
      else if msg.msgType = msgEmbedFrame then s.embedFrame current msg
      else if msg.msgType = msgUiMsg then
        match dest with
        | some pos =>
            if msg.msgValue = msgWindowCloseRequested then some (s.windowCloseRequested pos)
            else some (s.onView pos fun view => (view.dispatchUIMsg msg, []))
        | none => some (s, [])
      else if msg.msgType = msgDownloadInfo then
        let downloads := DownloadManager.handleDownloadInfo env.toQtVariants msg.msgValue
          msg.payload.data s.downloads
        some ({ s with downloads }, [])
      else some (s, [])

end OpBrowser.Ui
