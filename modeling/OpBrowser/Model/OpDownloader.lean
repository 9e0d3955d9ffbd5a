import OpBrowser.Model.Storage
import OpBrowser.Model.Traffic

/-! # Downloads from end to end (webapp/op2/OpDownloader.cpp)

A web app hands the reply of a request to a downloader, which sends what the reply receives
to the storage component, under an id of its own. -/

namespace OpBrowser.Downloads

/-! ### `OpDownloader` -/

/-- What a downloader looks up in its reply: a raw header, the path of the URL and the number
in another header. -/
structure ReplyInfo where
  contentDisposition : Option Bytes := none
  path : QString := []
  contentLength : ℤ := 0
  deriving DecidableEq, Repr

def quote : UInt16 := 34

/-- The name that the server sends. -/
def dispositionName (contentDisposition : Bytes) : QString :=
  match (QString.fromAscii contentDisposition).dropInfix? (QString.ofString "filename=") with
  | none => []
  | some (_, name) =>
      if name.head? = some quote ∧ name.getLast? = some quote then
        (name.drop 1).take (name.length - 2)
      else name

/-- `OpDownloader::getFileName` -/
def getFileName (info : ReplyInfo) : QString :=
  let path := (info.contentDisposition.map dispositionName).getD []
  let path := if path = [] then info.path else path
  let (baseName, endName) := Storage.nameParts path
  baseName ++ endName

/-- `OpDownloader`, without the name of its file, which nothing reads. -/
structure OpDownloader where
  reqId : I32
  sent : Bool := false
  finished : Bool := false
  bytes : ℤ := 0
  -- a record of the reply as it was handed over: whether it was finished, and how many
  -- bytes it held
  late : Bool := false
  waiting : ℕ := 0
  deriving DecidableEq, Repr

namespace OpDownloader

-- what `start` sends
variable (header : Bytes) (d : OpDownloader)

/-- `start`: the downloader afterwards, and the data of the requests that it sends. -/
def start : OpDownloader × List Bytes := ({ d with sent := true }, [header])

def downloadReadyRead (data : Bytes) : OpDownloader × List Bytes :=
  if data.length > 0 then
    -- if we haven't sent the request
    let (d, first) := if !d.sent then d.start header else (d, [])
    ({ d with bytes := d.bytes + data.length }, first ++ [data])
  else (d, [])

/-- The slot `finished` -/
def finish : OpDownloader × List Bytes :=
  ({ d with finished := true }, if d.sent && !d.finished then [[]] else [])

/-- The end of `init`, for a reply without an error: `handleUnsupportedContent` hands over no other
one, and a reply that `get` has just made has none. `get` makes one for every URL that is not
empty, and WebKit asks for no download without a URL. -/
def init (isFinished : Bool) (data : Bytes) : OpDownloader × List Bytes :=
  if isFinished then
    let (d, first) := d.start header
    let (d, next) := d.downloadReadyRead header data
    let (d, last) := d.finish
    (d, first ++ next ++ last)
  else (d, [])

end OpDownloader

/-! ### All downloads at once -/

/-- The web apps with their replies, and the storage component, which takes the messages in
`taken` one after the other. -/
structure State where
  traffic : Traffic.State := {}
  -- the downloaders of each web app by the ids of their requests, and its `s_reqId`
  downloaders : I32 → I32 → Option OpDownloader := fun _ _ => none
  reqId : I32 → I32 := fun _ => 0
  toStorage : List Message := []
  taken : List Message := []

variable (q : QtVariants) (info : I32 → I32 → ReplyInfo) (metaData : I32 → I32 → Bytes) (s : State)
  (a u : I32)

/-- The two variants that `start` writes. -/
def headerOf : Bytes :=
  q.write (q.ofString (getFileName (info a u))) ++ q.write (q.ofLongLong (info a u).contentLength)

/-- `OpNetwork::sendDownloadRequest`, with the id of the sender. -/
def request (id : I32) (data : Bytes) : Message where
  srcId := a
  dstId := storageId
  msgType := msgWriteFile
  msgValue := id
  payload := .ofBytes data

/-- A downloader has changed and sends these data. -/
def serve (d : OpDownloader × List Bytes) : State :=
  { s with
    downloaders := Function.update s.downloaders a (Function.update (s.downloaders a) u (some d.1))
    toStorage := s.toStorage ++ d.2.map (request a d.1.reqId) }

/-- `readAll` of a reply: its bytes, and the state after they were read. -/
def readAll (s : Traffic.State) : Bytes × Traffic.State :=
  match (s.webApps a).replies[u]? with
  | none => ([], s)
  | some r =>
      let maxSize := r.reply.readBuffer.data.length
      ((r.reply.readData maxSize).1.getD [], Traffic.readData s a u maxSize)

/-- The signals of `OpNetworkReply::feed`, which a downloader listens to. -/
def signalled (data : Bytes) : State :=
  match s.downloaders a u with
  | none => s
  | some d =>
      if data.length = 0 then serve s a u d.finish
      else
        let (bytes, traffic) := readAll a u s.traffic
        serve { s with traffic } a u (d.downloadReadyRead (headerOf q info a u) bytes)

/-- `new OpDownloader(reply)` -/
def newOpDownloader : State :=
  match (s.traffic.webApps a).replies[u]? with
  | none => s
  | some r =>
      let isFinished : Bool := r.reply.state = .finished
      let d : OpDownloader :=
        { reqId := s.reqId a
          late := isFinished
          waiting := (r.reply.readBuffer.seek r.reply.readIdx).bytesAvailable }
      let s := { s with reqId := Function.update s.reqId a (s.reqId a + 1) }
      if isFinished then
        let (bytes, traffic) := readAll a u s.traffic
        serve { s with traffic } a u (d.init (headerOf q info a u) isFinished bytes)
      else serve s a u (d.init (headerOf q info a u) isFinished [])

/-- A web app reads a message. A reply in the queue that is fed emits a signal. -/
def readWebApp : State :=
  let next := { s with traffic := Traffic.step metaData s.traffic (.readWebApp a) }
  match s.traffic.toWebApp a with
  | [] => next
  | msg :: _ =>
      match (s.traffic.webApps a).replies[msg.msgValue]? with
      | none => next
      | some r =>
          if msg.msgType = msgReturnUrl ∧ r.queued then
            signalled q info next a msg.msgValue msg.payload.data
          else next

/-! ### Runs -/

/-- What can happen next. -/
inductive Action where
  | traffic (act : Traffic.Action Bytes)
  /-- `WebView::downloadRequested` -/
  | downloadRequested (a : I32)
  /-- `WebPage::handleUnsupportedContent` for a reply without an error that has a content
  type. WebKit has not read from it. -/
  | handleUnsupportedContent (a urlId : I32)
  /-- A web app that runs other code writes what it likes to the storage component. -/
  | write (a : I32) (msg : Message)
  | readStorage
  deriving DecidableEq, Repr

def step (s : State) : Action → State
  | .traffic (.readWebApp a) => readWebApp q info metaData s a
  | .traffic (.readData a u maxSize) =>
      -- nobody else reads from a reply that has a downloader
      if (s.downloaders a u).isSome then s
      else { s with traffic := Traffic.readData s.traffic a u maxSize }
  | .traffic act => { s with traffic := Traffic.step metaData s.traffic act }
  | .downloadRequested a =>
      newOpDownloader q info { s with traffic := Traffic.createRequest s.traffic a } a
        (s.traffic.webApps a).reqId
  | .handleUnsupportedContent a u =>
      if (s.downloaders a u).isNone ∧ (s.traffic.record a u).returned = [] then
        newOpDownloader q info s a u
      else s
  | .write a msg => { s with toStorage := s.toStorage ++ [{ msg with srcId := a }] }
  | .readStorage =>
      match s.toStorage with
      | msg :: rest => { s with toStorage := rest, taken := s.taken ++ [msg] }
      | [] => s

/-- A run from the start of all components. -/
def run (as : List Action) : State := as.foldl (step q info metaData) {}

end OpBrowser.Downloads
