import OpBrowser.Library.Heap
import OpBrowser.Model.Response

/-! # All responses at once (network/Manager.cpp, webapp/op2/OpNetworkAccessManager.cpp)

Any number of web apps have any number of requests each. The manager keeps the requests in
`m_requestQueue`, and a web app keeps its replies by the ids of their requests. The kernel
puts the id of the sender into every message. -/

namespace OpBrowser.Traffic

open Response

/-! ### The network component -/

/-- `NetworkRequest`, with what is to be sent of its `m_reply` and what that has received and was
not asked for. -/
structure NetworkRequest where
  request : Response.Request
  metaDataSent : Bool := false
  metaData : Bytes := request.metaData
  received : Bytes := []
  -- a record of the signals: whether `readyRead` has come after the last bytes
  announced : Bool := true

namespace NetworkRequest

variable (r : NetworkRequest)

def webappId : I32 := r.request.srcId

def urlId : I32 := r.request.urlId

/-- The request afterwards and the messages that it writes. -/
def sendMetaDataIfNeeded : NetworkRequest × List Message :=
  if r.metaDataSent then (r, [])
  else ({ r with metaDataSent := true }, [metaDataMsg r.request r.metaData])

def forwardData : NetworkRequest × List Message :=
  let (r, msgs) := r.sendMetaDataIfNeeded
  let data := r.received
  ({ r with received := [] }, msgs ++ if data ≠ [] then [dataMsg r.request data] else [])

/-- `finish`, which removes the request. -/
def finish : List Message := r.sendMetaDataIfNeeded.2 ++ [dataMsg r.request []]

/-- `abort`. The `abort` of `m_reply` closes it and emits `finished`. The error that it sets
before is a `change`. -/
def abort : List Message := { r with received := [] }.finish

end NetworkRequest

/-! ### The web apps -/

/-- A reply, and whether it is in `m_replyQueue`. -/
structure Reply where
  queued : Bool := true
  reply : OpNetworkReply := {}

/-- `OpNetwork` and its manager. -/
structure WebApp where
  reqId : I32 := 0
  replies : OrdMap I32 Reply := ∅

/-- What has happened to a request: the bytes that arrived for it, what `readData` has
returned, the signals `finished`, and whether the web app has aborted it. -/
structure Record where
  body : Bytes := []
  returned : Bytes := []
  finishedSignals : ℕ := 0
  aborted : Bool := false
  deriving DecidableEq, Repr

structure State where
  requestQueue : List NetworkRequest := []
  -- the pipes, of which every web app has one of its own
  toNetwork : List Message := []
  toWebApp : I32 → List Message := fun _ => []
  webApps : I32 → WebApp := fun _ => {}
  record : I32 → I32 → Record := fun _ _ => {}

variable (s : State)

/-- Messages on their way to a web app. -/
def writeTo (a : I32) (msgs : List Message) : State :=
  { s with toWebApp := Function.update s.toWebApp a (s.toWebApp a ++ msgs) }

def setRecord (a u : I32) (f : Record → Record) : State :=
  { s with
    record := Function.update s.record a (Function.update (s.record a) u (f (s.record a u))) }

def setWebApp (a : I32) (w : WebApp) : State :=
  { s with webApps := Function.update s.webApps a w }

def setReply (a u : I32) (r : Reply) : State :=
  setWebApp s a { s.webApps a with replies := (s.webApps a).replies.insert u r }

section Network

-- the attributes, the headers and the error of the new `m_reply` of a request, as they are sent
variable (metaData : I32 → I32 → Bytes)

/-- `Manager::removeRequest` -/
def removeRequest (i : ℕ) : State := { s with requestQueue := s.requestQueue.eraseIdx i }

/-- `Manager::dispatchMsg`, for requests with the operations GET and POST. Of any other operation
`NetworkRequest::start` makes no `m_reply`. -/
def dispatchNetwork (msg : Message) : State :=
  if msg.msgType = msgFetchUrl then
    let request : Response.Request :=
      { urlId := msg.msgValue, srcId := msg.srcId, metaData := metaData msg.srcId msg.msgValue }
    { s with requestQueue := s.requestQueue ++ [{ request }] }
  else if msg.msgType = msgFetchUrlAbort then
    match s.requestQueue.findIdx? fun r => r.webappId = msg.srcId ∧ r.urlId = msg.msgValue with
    | none => s
    | some i =>
        match s.requestQueue[i]? with
        | none => s
        | some r => writeTo (removeRequest s i) r.webappId r.abort
  else s

/-- A request has changed and has written messages. -/
def updateRequest (i : ℕ) (r : NetworkRequest × List Message) : State :=
  writeTo { s with requestQueue := s.requestQueue.set i r.1 } r.1.webappId r.2

end Network

section WebApp

variable (a : I32)

/-- `OpNetwork::createRequest` -/
def createRequest : State :=
  let urlId := (s.webApps a).reqId
  let s := setReply s a urlId {}
  let s := setWebApp s a { s.webApps a with reqId := urlId + 1 }
  { s with toNetwork := s.toNetwork ++
      [{ srcId := a, dstId := networkId, msgType := msgFetchUrl, msgValue := urlId }] }

/-- `OpNetworkAccessManager::handleData` -/
def handleData (urlId : I32) (data : Bytes) : State :=
  match (s.webApps a).replies[urlId]? with
  | none => s
  | some r =>
      if r.queued then
        let s := setReply s a urlId { r with reply := r.reply.feed data }
        if data.length = 0 then
          setRecord s a urlId fun c => { c with finishedSignals := c.finishedSignals + 1 }
        else s
      else s

/-- `OpNetwork::dispatchMsg`. The attributes and headers that `feedMetaData` sets do not touch
the body. -/
def dispatchWebApp (msg : Message) : State :=
  if msg.msgType = msgReturnUrl then handleData s a msg.msgValue msg.payload.data else s

/-- `OpNetworkReply::abort` -/
def abort (urlId : I32) : State :=
  match (s.webApps a).replies[urlId]? with
  | none => s
  | some r =>
      let s := setRecord s a urlId fun c => { c with aborted := true }
      if r.reply.state ≠ .finished then
        let s := setReply s a urlId { queued := false, reply := { r.reply with state := .aborted } }
        { s with toNetwork := s.toNetwork ++
            [{ srcId := a, dstId := networkId, msgType := msgFetchUrlAbort, msgValue := urlId }] }
      else setReply s a urlId { r with queued := false }

/-- A call of `readData`. -/
def readData (urlId : I32) (maxSize : ℕ) : State :=
  match (s.webApps a).replies[urlId]? with
  | none => s
  | some r =>
      let (data, reply) := r.reply.readData maxSize
      setRecord (setReply s a urlId { r with reply }) a urlId fun c =>
        { c with returned := c.returned ++ data.getD [] }

end WebApp

/-! ### Runs -/

/-- What can happen to the `m_reply` of a request. -/
inductive Signal (ρ : Type) where
  /-- Bytes of the body arrive. -/
  | arrive (bytes : Bytes)
  /-- Attributes, headers or the error change. -/
  | change (m_reply : ρ)
  | metaDataChanged
  | readyRead
  /-- The reply is finished, after a `readyRead` for the last bytes. -/
  | finished
  deriving DecidableEq, Repr

/-- What can happen next. A request of the manager is known by its place in the queue. -/
inductive Action (ρ : Type) where
  | createRequest (a : I32)
  /-- A request for cookies takes an id. -/
  | cookiesForUrl (a : I32)
  /-- A web app that runs other code writes what it likes. -/
  | send (a : I32) (msg : Message)
  | readWebApp (a : I32)
  | readData (a urlId : I32) (maxSize : ℕ)
  | abort (a urlId : I32)
  | readNetwork
  | signal (i : ℕ) (sig : Signal ρ)
  deriving DecidableEq, Repr

/-- The same step for another description of the replies. -/
def Signal.map {ρ σ : Type} (f : ρ → σ) : Signal ρ → Signal σ
  | .arrive bytes => .arrive bytes
  | .change m_reply => .change (f m_reply)
  | .metaDataChanged => .metaDataChanged
  | .readyRead => .readyRead
  | .finished => .finished

def Action.map {ρ σ : Type} (f : ρ → σ) : Action ρ → Action σ
  | .createRequest a => .createRequest a
  | .cookiesForUrl a => .cookiesForUrl a
  | .send a msg => .send a msg
  | .readWebApp a => .readWebApp a
  | .readData a urlId maxSize => .readData a urlId maxSize
  | .abort a urlId => .abort a urlId
  | .readNetwork => .readNetwork
  | .signal i sig => .signal i (sig.map f)

def stepRequest (i : ℕ) (r : NetworkRequest) : Signal Bytes → State
  | .arrive bytes =>
      setRecord
        (updateRequest s i ({ r with received := r.received ++ bytes, announced := false }, []))
        r.webappId r.urlId fun c => { c with body := c.body ++ bytes }
  | .change metaData => updateRequest s i ({ r with metaData }, [])
  | .metaDataChanged => updateRequest s i r.sendMetaDataIfNeeded
  | .readyRead => updateRequest s i { r with announced := true }.forwardData
  | .finished => if r.announced then writeTo (removeRequest s i) r.webappId r.finish else s

def step (metaData : I32 → I32 → Bytes) (s : State) : Action Bytes → State
  | .createRequest a => createRequest s a
  | .cookiesForUrl a => setWebApp s a { s.webApps a with reqId := (s.webApps a).reqId + 1 }
  | .send a msg => { s with toNetwork := s.toNetwork ++ [{ msg with srcId := a }] }
  | .readWebApp a =>
      match s.toWebApp a with
      | msg :: rest =>
          dispatchWebApp { s with toWebApp := Function.update s.toWebApp a rest } a msg
      | [] => s
  | .readData a urlId maxSize => readData s a urlId maxSize
  | .abort a urlId => abort s a urlId
  | .readNetwork =>
      match s.toNetwork with
      | msg :: rest => dispatchNetwork { s with toNetwork := rest } metaData msg
      | [] => s
  | .signal i sig =>
      match s.requestQueue[i]? with
      | some r => stepRequest s i r sig
      | none => s

/-- A run from the start of all components. -/
def run (metaData : I32 → I32 → Bytes) (as : List (Action Bytes)) : State :=
  as.foldl (step metaData) {}

end OpBrowser.Traffic
