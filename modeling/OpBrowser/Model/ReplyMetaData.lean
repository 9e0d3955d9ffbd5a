import OpBrowser.Model.NetworkRequest
import OpBrowser.Model.Traffic

/-! # Attributes and headers of a response (network/Network.cpp, webapp/op2/OpNetworkReply.cpp)

Before the body a request sends the attributes, the headers and the error of its `m_reply` as
four variants, from which the web app fills the reply that the page has got. -/

namespace OpBrowser

/-- Variants that hold a `QList<QVariant>`. -/
structure QtLists extends QtMaps where
  /-- The type is a list or a map. -/
  isContainer : QVariant → Bool
  ofList : List QVariant → QVariant
  toList : QVariant → List QVariant

/-- A list comes back as it was, at least if it holds no lists or maps itself. -/
structure QtLists.Lawful (q : QtLists) : Prop extends toMaps : q.toQtMaps.Lawful where
  toList_ofList : ∀ l, (∀ v ∈ l, q.isContainer v = false) → q.toList (q.ofList l) = l

namespace Replies

open Network (QNetworkRequest)

/-! ### `QNetworkReply` -/

/-- `QNetworkReply` without its body. -/
structure QNetworkReply (q : QtLists) where
  /-- The URL and the raw headers, which Qt keeps like those of a request. -/
  headers : QNetworkRequest q.QUrl
  /-- An attribute that is not set is an invalid variant. -/
  attributes : ℕ → q.QVariant := fun _ => q.invalid
  error : ℤ := 0
  -- what `setErrorString` was called with
  lastError : QString := []

-- `QNetworkRequest::Attribute`
def httpStatusCodeAttribute : ℕ := 0

def connectionEncryptedAttribute : ℕ := 3

def unknownError : QString := QString.fromAscii (bytes "Unknown error")

namespace QNetworkReply

variable {q : QtLists} (r : QNetworkReply q)

def errorString : QString := if r.lastError = [] then unknownError else r.lastError

def setAttribute (code : ℕ) (value : q.QVariant) : QNetworkReply q :=
  { r with attributes := Function.update r.attributes code value }

def setRawHeader (headerName value : Bytes) : QNetworkReply q :=
  { r with headers := r.headers.setRawHeader headerName value }

def setError (errorCode : ℤ) (errorString : QString) : QNetworkReply q :=
  { r with error := errorCode, lastError := errorString }

/-- What `sendMetaDataIfNeeded` streams of the `m_reply` of a request. -/
def metaData : Bytes :=
  let codes := List.range' httpStatusCodeAttribute
    (connectionEncryptedAttribute + 1 - httpStatusCodeAttribute)
  let attributes := codes.map r.attributes
  let headers : OrdMap QString q.QVariant :=
    r.headers.rawHeaderList.foldl (fun headers headerName =>
      headers.insert (QString.fromAscii headerName)
        (q.ofByteArray (r.headers.rawHeader headerName))) ∅
  q.write (q.ofList attributes) ++ (q.write (q.ofMap headers) ++
    (q.write (q.ofInt r.error) ++ q.write (q.ofString r.errorString)))

/-- `OpNetworkReply::feedMetaData` -/
def feedMetaData (metaData : Bytes) : QNetworkReply q :=
  let (attributes, data) := q.read metaData
  let r := ((q.toList attributes).zipIdx httpStatusCodeAttribute).foldl
    (fun r entry => r.setAttribute entry.2 entry.1) r
  let (headers, data) := q.read data
  let r := (q.toMap headers).toList.foldl
    (fun r header => r.setRawHeader (QString.toLatin1 header.1) (q.toByteArray header.2)) r
  let (errorCode, data) := q.read data
  let (errorString, _) := q.read data
  r.setError (q.toInt errorCode) (q.toString errorString)

end QNetworkReply

/-! ### The web apps -/

variable {q : QtLists}

/-- All requests with their `m_reply`, and the replies that the pages have got. A web app that runs
other code may use an id twice. Its two requests share the `m_reply` here. -/
structure State (q : QtLists) where
  traffic : Traffic.State := {}
  m_reply : I32 → I32 → QNetworkReply q
  reply : I32 → I32 → QNetworkReply q

section WebApp

-- the URL of each request, and its new `m_reply`, as `get` or `post` returns it
variable (url : I32 → I32 → q.QUrl) (m_reply : I32 → I32 → QNetworkReply q)

theorem named_nil : ∀ header ∈ ([] : List (Bytes × Bytes)), header.1 ≠ [] :=
  List.forall_mem_nil _

theorem distinct_nil :
    ([] : List (Bytes × Bytes)).Pairwise fun a b => Network.sameName a.1 b.1 = false :=
  List.Pairwise.nil

/-- A reply after `setInfo`. -/
def newReply (a urlId : I32) : QNetworkReply q where
  headers := { url := url a urlId, named := named_nil, distinct := distinct_nil }

variable (s : State q)

def setReply (a urlId : I32) (r : QNetworkReply q) : State q :=
  { s with reply := Function.update s.reply a (Function.update (s.reply a) urlId r) }

/-- The `m_reply` of a request has other attributes, headers or another error. -/
def change (r : Traffic.NetworkRequest) (m_reply : QNetworkReply q) : State q :=
  { s with
    m_reply := Function.update s.m_reply r.webappId
      (Function.update (s.m_reply r.webappId) r.urlId m_reply) }

/-- `OpNetworkAccessManager::handleMetaData` -/
def handleMetaData (a urlId : I32) (metaData : Bytes) : State q :=
  match (s.traffic.webApps a).replies[urlId]? with
  | none => s
  | some r => if r.queued then setReply s a urlId ((s.reply a urlId).feedMetaData metaData) else s

/-- `OpNetwork::dispatchMsg`, for the metadata. -/
def dispatchWebApp (a : I32) (msg : Message) : State q :=
  if msg.msgType = msgReturnUrlMetadata then handleMetaData s a msg.msgValue msg.payload.data
  else s

/-! ### Runs -/

/-- What a step of the requests does to the replies. -/
def step (s : State q) (act : Traffic.Action (QNetworkReply q)) : State q :=
  let next (s : State q) : State q :=
    { s with
      traffic := Traffic.step (fun a u => (m_reply a u).metaData) s.traffic
        (act.map QNetworkReply.metaData) }
  match act with
  | .createRequest a =>
      let urlId := (s.traffic.webApps a).reqId
      next (setReply s a urlId (newReply url a urlId))
  | .readWebApp a =>
      match s.traffic.toWebApp a with
      | msg :: _ => next (dispatchWebApp s a msg)
      | [] => s
  | .signal i (.change m_reply) =>
      match s.traffic.requestQueue[i]? with
      | some r => next (change s r m_reply)
      | none => s
  | _ => next s

/-- A run from the start of all components. -/
def run (as : List (Traffic.Action (QNetworkReply q))) : State q :=
  as.foldl (step url m_reply) { m_reply, reply := newReply url }

end WebApp

end Replies

end OpBrowser
