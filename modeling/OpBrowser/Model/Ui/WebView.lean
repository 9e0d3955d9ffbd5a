import OpBrowser.Model.Message
import OpBrowser.Model.Ui.History
import OpBrowser.Model.Variants

/-! # Tabs and the frames in them (op-ui/webview.cpp, op-ui/frameview.cpp)

The windows of web apps are embedded through X, of which the ids are modelled. Functions
return the messages that they send. -/

namespace OpBrowser.Ui

/-- What the user interface uses of Qt, and the settings that matter to it. -/
structure UiEnv extends QtVariants where
  toBool : QVariant → Bool
  /-- `QString::toInt`, which is zero for a string that is no number. -/
  stringToInt : QString → I32
  /-- The setting `tabs/selectNewTabs`. -/
  selectNewTabs : Bool
  /-- The tab that is selected after the current one, at this index, was removed from a tab
  bar with so many tabs. -/
  tabAfterRemove : ℕ → ℕ → ℕ

/-- `sendSysCall` -/
def sysCall (containerId type : I32) (content : Bytes) : Message where
  dstId := kernelId
  msgType := type
  msgValue := containerId
  payload := .ofBytes content

/-- `QByteArray::number` of a client as the content of a call. -/
def clientCall (containerId type clientId : I32) : Message :=
  sysCall containerId type (decimal clientId)

/-! ### Frames -/

structure Geometry where
  x : I32
  y : I32
  width : I32
  height : I32
  deriving DecidableEq, Repr

/-- `FrameView`, with the geometry of its parent. -/
structure FrameView where
  containerId : I32
  clientId : I32 := 0
  clientWId : I32 := 0
  geometry : Geometry
  deriving DecidableEq, Repr

namespace FrameView

/-- `FrameView::handleEmbed` -/
def handleEmbed (clientId clientWId : I32) (view : FrameView) : FrameView × List Message :=
  ({ view with clientId, clientWId },
    clientCall view.containerId msgUpdataContainer clientId ::
      -- close the old one
      if view.clientId ≠ 0 then [clientCall view.containerId msgWebappClose view.clientId] else [])

/-- `FrameView::~FrameView` -/
def destroyed (view : FrameView) : List Message :=
  if view.clientId ≠ 0 then [clientCall view.containerId msgWebappClose view.clientId] else []

end FrameView

/-! ### Tabs -/

/-- `WebView`, with its `m_url`, which is not always what its `url()` returns. -/
structure WebView (env : UiEnv) where
  containerId : I32
  clientId : I32 := 0
  clientWId : I32 := 0
  title : QString := []
  progress : I32 := 0
  mUrl : env.QUrl := env.toUrl env.invalid
  initialUrl : env.QUrl := env.toUrl env.invalid
  history : History := {}
  iframes : List FrameView := []
  iframenames : List QString := []
  iframewids : List I32 := []
  iframeclientids : List I32 := []

namespace WebView

variable {env : UiEnv}

def url (view : WebView env) : env.QUrl :=
  if !env.isEmpty view.mUrl then view.mUrl else view.initialUrl

/-- The first loop of `closeFrames`. To close a frame that has no view yet the tab fakes
being its container. -/
def closePending (view : WebView env) : List Message :=
  view.iframeclientids.flatMap fun unembedded =>
    [clientCall view.containerId msgUpdataContainer unembedded,
      clientCall view.containerId msgWebappClose unembedded]

/-- `WebView::closeFrames` -/
def closeFrames (view : WebView env) : WebView env × List Message :=
  ({ view with iframeclientids := [], iframes := [] },
    view.closePending ++ view.iframes.flatMap FrameView.destroyed)

/-- `WebView::~WebView`, and the frames, which go with their parents. -/
def destroyed (view : WebView env) : List Message :=
  (if view.clientId ≠ 0 then
    clientCall view.containerId msgWebappClose view.clientId :: view.closePending
  else []) ++ view.iframes.flatMap FrameView.destroyed

/-- `WebView::handleEmbed` -/
def handleEmbed (msg : Message) (view : WebView env) : WebView env × List Message :=
  let clientId := msg.srcId
  let clientWId := msg.msgValue
  if clientId = 0 ∨ clientWId = 0 then (view, [])
  else
    let update := clientCall view.containerId msgUpdataContainer clientId
    if view.clientId ≠ 0 then
      -- close the old one
      let close := clientCall view.containerId msgWebappClose view.clientId
      let (view, sent) := closeFrames { view with clientId, clientWId }
      (view, update :: close :: sent)
    else ({ view with clientId, clientWId }, [update])

/-- `WebView::prepFrame` -/
def prepFrame (msg : Message) (view : WebView env) : WebView env × List Message :=
  if msg.msgValue = 0 ∨ msg.srcId = 0 then (view, [])
  else
    ({ view with
        iframewids := view.iframewids ++ [msg.msgValue]
        iframeclientids := view.iframeclientids ++ [msg.srcId] }, [])

/-- The loop of `embedFrame`, which closes the client at every frame before the right one. -/
def embedIn (ownId clientId clientWId containerId : I32) :
    List FrameView → List FrameView × List Message
  | [] => ([], [])
  | frame :: frames =>
      if frame.containerId = containerId then
        let (frame, sent) := frame.handleEmbed clientId clientWId
        (frame :: frames, sent)
      else
        let (frames, sent) := embedIn ownId clientId clientWId containerId frames
        (frame :: frames,
          clientCall ownId msgUpdataContainer clientId ::
            clientCall ownId msgWebappClose clientId :: sent)

/-- `WebView::embedFrame`. A new frame gets the window id `winId`. There is no result if it
takes a client from an empty list. -/
def embedFrame (winId : I32) (msg : Message) (view : WebView env) :
    Option (WebView env × List Message) :=
  let strData := env.toString (env.ofByteArray msg.payload.data)
  if msg.msgValue = 0 then
    some ({ view with iframenames := view.iframenames ++ [strData] }, [])
  else if msg.msgValue = 1 then
    match strData.splitOn QString.comma with
    | [height, width, x, y, frameName] =>
        if frameName ∈ view.iframenames then
          match view.iframeclientids, view.iframewids with
          | clientId :: clientIds, clientWid :: wids =>
              let qxec : FrameView :=
                { containerId := winId
                  geometry :=
                    { x := env.stringToInt x, y := env.stringToInt y
                      width := env.stringToInt width, height := env.stringToInt height } }
              let (qxec, sent) := qxec.handleEmbed clientId clientWid
              some ({ view with
                iframes := view.iframes ++ [qxec]
                iframeclientids := clientIds
                iframewids := wids }, sent)
          | _, _ => none
        else some (view, [])
    | _ => some (view, [])
  else
    let (iframes, sent) :=
      embedIn view.containerId msg.srcId msg.msgValue (atoi msg.stringData) view.iframes
    some ({ view with iframes }, sent)

/-- `WebView::navToNewUrl` -/
def navToNewUrl (url : QString) (view : WebView env) : WebView env :=
  { view with history := view.history.addItem { url } }

/-- `WebView::dispatchUIMsg`, as far as the tab itself changes. -/
def dispatchUIMsg (msg : Message) (view : WebView env) : WebView env :=
  let var := if msg.payload.data.length > 0 then (env.read msg.payload.data).1 else env.invalid
  let value := msg.msgValue
  if value = msgLoadStarted then { view with progress := 0 }
  else if value = msgLoadProgress then
    let progress := env.toInt var
    { view with progress := if progress = 100 then 0 else progress }
  else if value = msgLoadFinished then { view with progress := 0 }
  else if value = msgTitleChanged then
    let title := env.toString var
    { view with title, history := view.history.setCurrentItemTitle title }
  else if value = msgUrlChanged then { view with mUrl := env.toUrl var }
  else if value = msgAddHistoryItem then view.navToNewUrl (env.toString var)
  else if value = msgNavBackOrForward then
    { view with history := view.history.ajustCurrentItem (env.toBool var) }
  else view

end WebView

end OpBrowser.Ui
