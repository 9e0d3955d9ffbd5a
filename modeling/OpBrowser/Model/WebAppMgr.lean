import OpBrowser.Model.KernelState

/-! # The cache and the manager of web apps

kernel/WebAppCache.cpp and kernel/WebAppMgr.cpp. -/

namespace OpBrowser.Kernel

/-! ### WebAppCache -/

/-- Whether a cached process is labelled for this URL. -/
def WebAppCache.matches (policy : MatchPolicy) (dn : DomainName) (entry : Process) : Bool :=
  match policy with
  | .sopMatch => DomainName.sameOrigin entry.label dn
  | .exactMatch => entry.label.url = dn.url

/-- The loop of `hit`: the first match and the entries without it. -/
def hitLoop (policy : MatchPolicy) (dn : DomainName) : List Addr → Op (Option Addr × List Addr)
  | [] => return (none, [])
  | a :: rest => do
      let p ← deref a
      if WebAppCache.matches policy dn p then return (some a, rest)
      else
        let r ← hitLoop policy dn rest
        return (r.1, a :: r.2)

/-- `WebAppCache::hit` -/
def hit (url : Bytes) : Op (Option Addr) := do
  let s ← get
  let r ← hitLoop s.cache.matchPolicy (.ofUrl url) s.cache.entries
  modify (·.setEntries r.2)
  return r.1

/-- `WebAppCache::evict` -/
def evict : Op Unit := do
  let s ← get
  let entry ← require s.cache.entries.head? .nullDeref
  modify (·.setEntries s.cache.entries.tail)
  let p ← deref entry
  let id ← nextMsgId
  writeMessageKernel .evict p.inFd
    { srcId := kernelId, dstId := p.objectId, msgId := id, msgType := msgWebappMsg,
      msgValue := msgWebappClose }
  addToKillList entry
  removeFromProcMap entry
  deleteProc entry

/-- `WebAppCache::store` -/
def store (entry : Addr) : Op Unit := do
  modify fun s => s.setEntries (s.cache.entries ++ [entry])
  let s ← get
  if s.cache.entries.length > s.cache.size then evict

/-! ### WebAppMgr -/

def addToWebAppList (app : Addr) : Op Unit := do
  let a ← derefApp app
  match a.proc with
  | none => pure ()
  | some proc =>
      let p ← deref proc
      let s ← get
      ensure (s.webAppList[p.objectId]? = none) .tableAssert
      modify (·.list p.objectId app)

def removeFromWebAppList (app : Addr) : Op Unit := do
  let a ← derefApp app
  let proc ← require a.proc .tableAssert
  let p ← deref proc
  let s ← get
  ensure (s.webAppList[p.objectId]? = some (some app)) .tableAssert
  modify (·.unlist p.objectId)

/-- `WebAppMgr::preCreateWebApp` -/
def preCreateWebApp : Op Unit := do
  let s ← get
  if s.cachedWebApp = none then
    let curWebAppId := s.webAppIdOffset + webappFirstId
    -- the source counts up and makes the record before this call, which looks at neither
    let proc ← createProc curWebAppId
    modify fun s => { s with webAppIdOffset := s.webAppIdOffset + 1 }
    let app ← newApp { proc := some proc }
    modify (·.setSpare app)
    addToProcMap proc

/-- The loop `while (m_cachedWebApp == 0) preCreateWebApp();`, whose body makes
its test false. -/
def spareWebApp : Op Addr := do
  preCreateWebApp
  let s ← get
  require s.cachedWebApp .nullDeref

/-- `WebAppMgr::handleMessage`: the init message of the spare web app. -/
def handleInit (proc : Addr) (msg : Message) : Op Unit := do
  let s ← get
  if msg.msgType = msgNewWebapp then
    match s.cachedWebApp with
    | none => pure ()
    | some app =>
        let a ← derefApp app
        if a.proc = some proc then
          ensure (a.client = 0) .clientAssert
          updateApp app fun a => { a with client := msg.msgValue }
          updateProc proc fun p => { p with clientId := some msg.msgValue }

/-- `WebAppMgr::handleEmbedFrame` -/
def handleEmbedFrame (msg : Message) : Op Unit := do
  let s ← get
  writeMessageKernel .handleEmbedFrame s.uiFd msg

/-- The process of `prepNewProc`: a cached one of the same label, else the spare one. -/
def takeProc (url : Bytes) : Op Addr := do
  match ← hit url with
  | some entry =>
      let p ← deref entry
      let client ← require p.clientId .uninitialised
      newApp { proc := some entry, client }
  | none =>
      let app ← spareWebApp
      modify (·.setSpare none)
      return app

/-- `WebAppMgr::prepNewProc` -/
def prepNewProc (containerId requester : I32) (url : Bytes) : Op Addr := do
  let ret ← takeProc url
  addToWebAppList ret
  updateApp ret fun a => { a with container := containerId }
  let s ← get
  if requester ≥ webappFirstId ∧ containerId = 1 then
    match s.webAppList[requester]? with
    | none => pure ()
    | some app =>
        let app ← require app .nullDeref
        let a ← derefApp app
        updateApp ret fun r => { r with container := a.container }
  return ret

/-- `std::string url((const char*)data)`: the buffer is not NUL-terminated. The frame that the
user interface sends for an address in a new tab holds the text of the URL alone
(op-ui/webview.cpp:392), without a NUL, and ends in the second fault. -/
def stringOfData (data : Payload) : Op Bytes := do
  ensure (data.data ≠ []) .nullString
  ensure (0 ∈ data.data) .overRead
  return cStr data.data

/-- The read in `handleNewUrl` when the window id is not known yet. -/
def awaitClient (app proc : Addr) : Op Unit := do
  let p ← deref proc
  let msg ← readMessageKernel p (-1) (-1)
  ensure (msg.msgType = msgNewWebapp) .initAssert
  updateApp app fun a => { a with client := msg.msgValue }
  updateProc proc fun p => { p with clientId := some msg.msgValue }

/-- The end of `handleNewUrl`: the UI learns of the web app, in a frame that bears
the web app's id as its source. -/
def tellUi (app proc : Addr) : Op Unit := do
  let a ← derefApp app
  let p ← deref proc
  let id ← nextMsgId
  let s ← get
  writeMessageKernel .handleNewUrl s.uiFd
    { srcId := p.objectId, dstId := uiId, msgId := id, msgType := msgNewWebapp,
      msgValue := a.client, payload := .ofBytes (decimal a.container) }
  if !s.isCrawler then preCreateWebApp

/-- The part of `handleNewUrl` after the URL has been sent. -/
def announce (app proc : Addr) : Op Unit := do
  let a ← derefApp app
  if a.client = 0 then awaitClient app proc
  tellUi app proc

/-- `WebAppMgr::handleNewUrl` -/
def handleNewUrl (containerId requester : I32) (data : Payload) (urlId : I32) : Op Unit := do
  if containerId ≠ 0 then
    let url ← stringOfData data
    let app ← prepNewProc containerId requester url
    let proc ← procOf app
    updateProc proc fun p => { p with label := .ofUrl url }
    let p ← deref proc
    let id ← nextMsgId
    writeMessageKernel .handleNewUrl p.inFd
      { srcId := kernelId, dstId := p.objectId, msgId := id, msgType := msgSetUrl,
        msgValue := urlId, payload := data }
    announce app proc

/-- `WebAppMgr::checkWebAppMsg` -/
def checkWebAppMsg (containerId webAppId : I32) : Op Bool := do
  let s ← get
  match s.webAppList[webAppId]? with
  | none => return false
  | some app =>
      let app ← require app .nullDeref
      let a ← derefApp app
      if a.container = containerId then return true
      else if a.container = 0 then
        updateApp app fun a => { a with container := containerId }
        return true
      else return false

/-- `m_webAppList[webAppId]`: a missing entry becomes a null pointer, which is
what the callers then follow. -/
def webAppAt (webAppId : I32) : Op Addr := do
  let s ← get
  require (s.webAppList[webAppId]?).join .nullDeref

/-- `WebAppMgr::handleUnexpectedClose`, in the order of the source: the process
record is freed before `removeFromWebAppList` looks at it. -/
def handleUnexpectedClose (webAppId : I32) : Op Unit := do
  let app ← webAppAt webAppId
  let proc ← procOf app
  removeFromProcMap proc
  deleteProc proc
  removeFromWebAppList app
  deleteApp app

/-- `WebAppMgr::handleUpdateContainer` -/
def handleUpdateContainer (containerId webAppId : I32) : Op Unit := do
  let s ← get
  match s.webAppList[webAppId]? with
  | none => pure ()
  | some app =>
      let app ← require app .nullDeref
      updateApp app fun a => { a with container := containerId }

/-- `WebAppMgr::handleCloseWebApp` -/
def handleCloseWebApp (containerId webAppId : I32) : Op Unit := do
  if ← checkWebAppMsg containerId webAppId then
    let id ← nextMsgId
    let app ← webAppAt webAppId
    let proc ← procOf app
    let p ← deref proc
    writeMessageKernel .handleCloseWebApp p.inFd
      { srcId := kernelId, dstId := webAppId, msgId := id, msgType := msgWebappMsg,
        msgValue := msgWebappHide }
    store proc
    removeFromWebAppList app
    deleteApp app

/-- `WebAppMgr::handleReplayWebApp`; the body of `replayWebApp` is compiled out. -/
def handleReplayWebApp (webAppId : I32) : Op Unit := do
  let s ← get
  ensure (s.webAppList[webAppId]? = none) .tableAssert
  let app ← spareWebApp
  let proc ← procOf app
  let p ← deref proc
  updateProc proc fun p => { p with objectId := webAppId }
  addToWebAppList app
  updateApp app fun a => { a with container := 0 }
  let s ← get
  ensure (s.webAppList[webAppId]? ≠ none) .tableAssert
  modify (·.setSpare none)
  let app ← webAppAt webAppId
  let proc ← procOf app
  removeFromWebAppList app
  deleteApp app
  updateProc proc fun q => { q with objectId := p.objectId }
  removeFromProcMap proc
  deleteProc proc

end OpBrowser.Kernel
