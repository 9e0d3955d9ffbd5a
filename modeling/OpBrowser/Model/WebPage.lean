import OpBrowser.Model.Message
import OpBrowser.Model.NewUrlMsg

/-! # Which loads a web app lets through (webapp/op2/webpage.cpp, webapp/op2/webview.cpp) -/

namespace OpBrowser.WebPage

/-- `QWebPage::NavigationType` -/
inductive NavigationType where
  | linkClicked | formSubmitted | backOrForward | reload | formResubmitted | other
  deriving DecidableEq, Repr

/-- The frame of a navigation, which is null for a new window. -/
inductive Frame where
  | main
  | null
  | sub (frameName : Bytes)
  deriving DecidableEq, Repr

/-- What the page uses of Qt besides the parts of a message. -/
structure QtWebKit extends Qt where
  scheme : QUrl → String
  host : QUrl → String
  port : QUrl → ℤ
  toString : QUrl → String
  /-- `toString` without path, query and fragment. -/
  toStringRemovePath : QUrl → String
  toLower : String → String
  ofString : String → QVariant
  /-- `QWebPage::acceptNavigationRequest` -/
  acceptNavigationRequest : Frame → Request toQt → NavigationType → Bool

/-- `IS_CRAWLER` and `m_iframeHandled`, which come from the environment. -/
structure Settings where
  crawler : Bool := false
  iframeHandled : Bool := false
  deriving DecidableEq, Repr

/-- The modifiers that are looked at. -/
structure KeyboardModifiers where
  shift : Bool := false
  control : Bool := false
  alt : Bool := false
  deriving DecidableEq, Repr

/-- `Qt::MidButton`, one of the flags of `Qt::MouseButtons`. -/
def midButton : ℕ := 4

/-- `WebView::OpenType` -/
inductive OpenType where
  | thisWebApp | newWebApp | newTabNoSelect | newTabSelect | newWindow | newSubFrame
  deriving DecidableEq, Repr

/-- The number of an enumerator. -/
def OpenType.toI32 : OpenType → I32
  | .thisWebApp => 0
  | .newWebApp => 1
  | .newTabNoSelect => 2
  | .newTabSelect => 3
  | .newWindow => 4
  | .newSubFrame => 5

variable (k : QtWebKit)

/-- A load of the main frame, with the answer and the messages that were sent for it. -/
structure Load where
  request : Request k.toQt
  accepted : Bool
  messages : List Message

/-- `WebPage` and `WebView`. Nothing here reads `m_back` and `m_loadingUrl`. -/
structure View where
  keyboardModifiers : KeyboardModifiers := {}
  pressedButtons : ℕ := 0
  posted : Bool := false
  initialUrl : k.QUrl
  userAction : Bool := false
  /-- `QWebView::url()`, once there is one. -/
  committed : Option k.QUrl := none
  /-- All messages to the kernel and the user interface. -/
  sent : List Message := []
  loads : List (Load k) := []

variable {k} (c : Settings) (v : View k)

/-- `WebView::url` -/
def url : k.QUrl :=
  match v.committed with
  | some url => if !k.isEmpty url then url else v.initialUrl
  | none => v.initialUrl

/-! ### `OpNetwork` -/

def sendUIMsg (type : I32) (content : Bytes) : View k :=
  { v with sent := v.sent ++
      [{ dstId := uiId, msgType := msgUiMsg, msgValue := type, payload := .ofBytes content }] }

def sendSysCall (type value : I32) (content : Bytes) : View k :=
  { v with sent := v.sent ++
      [{ dstId := kernelId, msgType := type, msgValue := value, payload := .ofBytes content }] }

/-! ### The check -/

/-- The local variable `sop`. -/
def sop (loadingUrl current : k.QUrl) : Bool :=
  k.toLower (k.scheme loadingUrl) = k.toLower (k.scheme current) &&
    k.toLower (k.host loadingUrl) = k.toLower (k.host current) &&
    k.port loadingUrl = k.port current

/-- `loadPolicy` for every type but `ThisWebApp`. -/
def loadElsewhere (request : Request k.toQt) (type : OpenType) : View k :=
  sendSysCall v msgNewUrl type.toI32 (WebView.encodedNewUrlMsg k.toQt request)

/-- `WebPage::acceptNavigationRequest`. The data of the post is the body of the request. -/
def acceptNavigationRequest (frame : Frame) (request : Request k.toQt) (type : NavigationType) :
    Bool × View k :=
  if k.scheme request.url = "mailto" ∨ k.scheme request.url = "ftp" then (false, v)
  else if c.crawler then (k.acceptNavigationRequest frame request type, v)
  else
    -- little trick to avoid double post
    let v := { v with posted := !v.posted && 0 < request.body.length }
    if type = .linkClicked ∧ (v.keyboardModifiers.control ∨ v.pressedButtons = midButton) then
      let t : OpenType :=
        if v.keyboardModifiers.alt then .newWindow
        else if v.keyboardModifiers.shift then .newTabSelect else .newTabNoSelect
      (false, { loadElsewhere v request t with keyboardModifiers := {}, pressedButtons := 0 })
    else
      match frame with
      | .main =>
          if !sop request.url (url v) then
            let body := if v.posted then request.body else []
            (false, loadElsewhere v { request with body } .newWebApp)
          else
            let v :=
              if (type ≠ .other ∧ type ≠ .reload ∧ type ≠ .backOrForward) ∨ v.userAction then
                { sendUIMsg v msgAddHistoryItem (k.write (k.ofString (k.toString request.url))) with
                  userAction := false }
              else v
            (k.acceptNavigationRequest frame request type, v)
      | .null => (false, loadElsewhere v request .newTabNoSelect)
      | .sub frameName =>
          if c.iframeHandled ∧
              k.toStringRemovePath request.url ≠ k.toStringRemovePath (url v) ∧
              k.toString request.url ≠ "about:blank" then
            (false, loadElsewhere (sendSysCall v msgEmbedFrame 0 frameName) request .newSubFrame)
          else (k.acceptNavigationRequest frame request type, v)

/-- QtWebKit asks before it loads. -/
def navigate (frame : Frame) (request : Request k.toQt) (type : NavigationType) : View k :=
  let (accepted, v') := acceptNavigationRequest c v frame request type
  if frame = .main then
    { v' with loads := v'.loads ++
        [{ request, accepted, messages := v'.sent.drop v.sent.length }] }
  else v'

/-! ### The slots -/

/-- `WebView::loadUrl`, with the `load` of `QWebView`. -/
def loadUrl (request : Request k.toQt) : View k :=
  navigate c { v with initialUrl := request.url } .main request .other

/-- `WebView::setUrl` -/
def setUrl (content : Bytes) : View k :=
  let request := WebView.decodedNewUrlMsg k.toQt content
  loadUrl c { v with initialUrl := request.url } request

/-- `WebView::slotWebAppMsg`. The other messages do not touch what is loaded. -/
def slotWebAppMsg (type : I32) (content : Bytes) : View k :=
  if type = msgWebappLoadUrl then
    loadUrl c v
      { url := k.fromText (cStr content), contentType := k.invalid, referer := [], body := [] }
  else v

/-- `WebView::mousePressEvent` -/
def mousePressEvent (buttons : ℕ) (modifiers : KeyboardModifiers) : View k :=
  { v with pressedButtons := buttons, keyboardModifiers := modifiers }

/-- `WebView::openLink`, without the click that it triggers. -/
def openLink : View k := { v with userAction := true }

/-- The first data of a load that was let through arrives. From then on the page has
its URL, which is not empty. -/
def commit (load : ℕ) : View k :=
  match v.loads[load]? with
  | some l =>
      if l.accepted ∧ ¬ k.isEmpty l.request.url then { v with committed := some l.request.url }
      else v
  | none => v

/-! ### Runs -/

/-- What can happen next. -/
inductive Action (k : QtWebKit) where
  /-- `MSG_SET_URL` -/
  | setUrl (content : Bytes)
  | webAppMsg (type : I32) (content : Bytes)
  /-- The page navigates one of its frames. -/
  | navigate (frame : Frame) (request : Request k.toQt) (type : NavigationType)
  | mousePressEvent (buttons : ℕ) (modifiers : KeyboardModifiers)
  | openLink
  /-- One of the loads that were let through commits. -/
  | commit (load : ℕ)

def step (v : View k) : Action k → View k
  | .setUrl content => setUrl c v content
  | .webAppMsg type content => slotWebAppMsg c v type content
  | .navigate frame request type => navigate c v frame request type
  | .mousePressEvent buttons modifiers => mousePressEvent v buttons modifiers
  | .openLink => openLink v
  | .commit load => commit v load

/-- A run from the first `MSG_SET_URL`. -/
def run (content : Bytes) (as : List (Action k)) : View k :=
  as.foldl (step c) (setUrl c { initialUrl := k.fromText [] } content)

end OpBrowser.WebPage
