import OpBrowser.Model.Message

/-! # A response on its way to a web app (network/Network.cpp, webapp/op2/OpNetworkReply.cpp)

`NetworkRequest` in the network component forwards what its `m_reply` receives.
`OpNetworkReply` in the web app is fed with the messages. The two processes take turns
in any order, with a pipe in each direction between them. -/

namespace OpBrowser.Response

/-! ### The buffer of a reply -/

/-- `QBuffer`, with the position of the device. -/
structure QBuffer where
  data : Bytes := []
  pos : ℕ := 0
  deriving DecidableEq, Repr

namespace QBuffer

variable (b : QBuffer)

def seek (pos : ℕ) : QBuffer := { b with pos }

def bytesAvailable : ℕ := b.data.length - b.pos

def read (maxSize : ℕ) : Bytes × QBuffer :=
  let bytes := (b.data.drop b.pos).take maxSize
  (bytes, { b with pos := b.pos + bytes.length })

/-- Overwrites what is at the position and extends the buffer. -/
def write (bytes : Bytes) : QBuffer where
  data := b.data.take b.pos ++ bytes ++ b.data.drop (b.pos + bytes.length)
  pos := b.pos + bytes.length

end QBuffer

/-- `OpNetworkReply::State` -/
inductive ReplyState where
  | idle | opening | working | finished | aborted
  deriving DecidableEq, Repr

/-- `OpNetworkReply` -/
structure OpNetworkReply where
  state : ReplyState := .idle
  readBuffer : QBuffer := {}
  readIdx : ℕ := 0
  writeIdx : ℕ := 0
  deriving DecidableEq, Repr

namespace OpNetworkReply

variable (r : OpNetworkReply)

/-- `readData`: the bytes, or nothing for the return value -1. -/
def readData (maxSize : ℕ) : Option Bytes × OpNetworkReply :=
  let buffer := r.readBuffer.seek r.readIdx
  if buffer.bytesAvailable = 0 then
    (if r.state = .aborted then none else some [], { r with readBuffer := buffer })
  else if maxSize = 1 then
    -- just get one
    let (c, buffer) := buffer.read 1
    (some c, { r with readBuffer := buffer, readIdx := buffer.pos })
  else
    let (data, buffer) := buffer.read (min maxSize buffer.bytesAvailable)
    (some data, { r with readBuffer := buffer, readIdx := buffer.pos })

/-- What the buffer adds to `bytesAvailable`. -/
def bytesAvailable : ℕ := r.readBuffer.bytesAvailable

/-- `feed`, which emits `finished` for the end and `readyRead` for everything else. -/
def feed (data : Bytes) : OpNetworkReply :=
  if data.length = 0 then { r with state := .finished }
  else
    let buffer := (r.readBuffer.seek r.writeIdx).write data
    { r with readBuffer := buffer.seek r.readIdx, writeIdx := buffer.pos }

end OpNetworkReply

/-! ### The two processes -/

/-- A request as it starts. -/
structure Request where
  urlId : I32
  srcId : I32
  /-- The attributes, the headers and the error of the new `m_reply`, as they are sent. -/
  metaData : Bytes

structure State where
  -- the network component: `m_metaDataSent`, what `sendMetaDataIfNeeded` makes of `m_reply`,
  -- what `m_reply` has received and was not asked for, and whether the request is in
  -- `m_requestQueue`
  metaDataSent : Bool := false
  metaData : Bytes := []
  received : Bytes := []
  requested : Bool := true
  -- the pipes
  toWebApp : List Message := []
  toNetwork : List Message := []
  -- the web app: whether the reply is in `m_replyQueue`, and the reply
  queued : Bool := true
  reply : OpNetworkReply := {}
  -- a record of what has happened: the body so far, whether `readyRead` has come after it, all
  -- messages that were sent, what `readData` has returned, the signals, and whether the web app
  -- has aborted
  body : Bytes := []
  announced : Bool := true
  sent : List Message := []
  returned : Bytes := []
  finishedSignals : ℕ := 0
  aborted : Bool := false
  deriving DecidableEq, Repr

section NetworkRequest

variable (q : Request) (s : State)

def metaDataMsg (metaData : Bytes) : Message :=
  { srcId := networkId, dstId := q.srcId, msgType := msgReturnUrlMetadata, msgValue := q.urlId
    payload := .ofBytes metaData }

def dataMsg (data : Bytes) : Message :=
  { srcId := networkId, dstId := q.srcId, msgType := msgReturnUrl, msgValue := q.urlId
    payload := .ofBytes data }

/-- `msg.writeMessage()` in the network component. -/
def writeMessage (msg : Message) : State :=
  { s with toWebApp := s.toWebApp ++ [msg], sent := s.sent ++ [msg] }

def sendMetaDataIfNeeded : State :=
  if s.metaDataSent then s
  else writeMessage { s with metaDataSent := true } (metaDataMsg q s.metaData)

def forwardData : State :=
  let s := sendMetaDataIfNeeded q s
  let data := s.received
  let s := { s with received := [] }
  if data ≠ [] then writeMessage s (dataMsg q data) else s

/-- `NetworkRequest::finish` -/
def finish : State :=
  let s := sendMetaDataIfNeeded q s
  { writeMessage s (dataMsg q []) with requested := false }

/-- `NetworkRequest::abort`. The `abort` of `m_reply` closes it and emits `finished`. The error
that it sets before is a `change`. -/
def abortRequest : State :=
  finish q { s with requested := false, received := [] }

/-- `Manager::dispatchMsg`, for the messages of this request. -/
def dispatchNetwork (msg : Message) : State :=
  if msg.msgType = msgFetchUrlAbort ∧ s.requested ∧ msg.srcId = q.srcId ∧
    msg.msgValue = q.urlId then
    abortRequest q s
  else s

end NetworkRequest

section WebApp

variable (q : Request) (s : State)

/-- `OpNetworkAccessManager::handleData` -/
def handleData (data : Bytes) : State :=
  if s.queued then
    { s with
      reply := s.reply.feed data
      finishedSignals := if data.length = 0 then s.finishedSignals + 1 else s.finishedSignals }
  else s

/-- `OpNetwork::dispatchMsg`, for the messages of this request. The attributes and headers
that `feedMetaData` sets do not touch the body. -/
def dispatchWebApp (msg : Message) : State :=
  if msg.msgType = msgReturnUrl ∧ msg.msgValue = q.urlId then handleData s msg.payload.data
  else s

/-- `OpNetworkReply::abort` -/
def abort : State :=
  let s := { s with aborted := true }
  if s.reply.state ≠ .finished then
    { s with
      reply := { s.reply with state := .aborted }
      toNetwork := s.toNetwork ++
        [{ srcId := q.srcId, dstId := networkId, msgType := msgFetchUrlAbort, msgValue := q.urlId }]
      queued := false }
  else { s with queued := false }

/-- A call of `readData`. -/
def read (maxSize : ℕ) : State :=
  let (data, reply) := s.reply.readData maxSize
  { s with reply, returned := s.returned ++ data.getD [] }

end WebApp

/-! ### Runs -/

/-- What can happen next. -/
inductive Action where
  /-- Bytes of the body arrive at `m_reply`. -/
  | arrive (bytes : Bytes)
  /-- Attributes, headers or the error of `m_reply` change. -/
  | change (metaData : Bytes)
  | metaDataChanged
  | readyRead
  /-- `m_reply` is finished, after a `readyRead` for the last bytes. -/
  | finished
  /-- The network component reads a message. -/
  | readNetwork
  /-- The web app reads a message. -/
  | readWebApp
  | readData (maxSize : ℕ)
  | abort
  deriving DecidableEq, Repr

def step (q : Request) (s : State) : Action → State
  | .arrive bytes =>
      if s.requested then
        { s with received := s.received ++ bytes, body := s.body ++ bytes, announced := false }
      else s
  | .change metaData => if s.requested then { s with metaData } else s
  | .metaDataChanged => if s.requested then sendMetaDataIfNeeded q s else s
  | .readyRead => if s.requested then forwardData q { s with announced := true } else s
  | .finished => if s.requested ∧ s.announced then finish q s else s
  | .readNetwork =>
      match s.toNetwork with
      | msg :: rest => dispatchNetwork q { s with toNetwork := rest } msg
      | [] => s
  | .readWebApp =>
      match s.toWebApp with
      | msg :: rest => dispatchWebApp q { s with toWebApp := rest } msg
      | [] => s
  | .readData maxSize => read s maxSize
  | .abort => abort q s

/-- A run from the state after the request was sent. -/
def run (q : Request) (as : List Action) : State := as.foldl (step q) { metaData := q.metaData }

end OpBrowser.Response
