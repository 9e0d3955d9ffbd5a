import OpBrowser.Library.Heap
import OpBrowser.Model.Message
import OpBrowser.Model.PostData

/-! # Requests to the network component (webapp/op2/OpNetwork.cpp, network/Network.cpp)

A web app streams a request as four variants, from which the network component makes one
for its own manager. -/

namespace OpBrowser

/-- Variants that hold a `QMap<QString, QVariant>`. -/
structure QtMaps extends QtVariants where
  ofMap : OrdMap QString QVariant → QVariant
  toMap : QVariant → OrdMap QString QVariant

/-- A map of byte arrays comes back as it was. -/
structure QtMaps.Lawful (q : QtMaps) : Prop extends toVariants : q.toQtVariants.Lawful where
  toMap_ofMap : ∀ headers : OrdMap QString q.QVariant,
    (∀ header ∈ headers.toList, ∃ b, header.2 = q.ofByteArray b) →
      q.toMap (q.ofMap headers) = headers

namespace Network

/-! ### `QNetworkRequest` -/

/-- `qstricmp` finds no difference. -/
def sameName (a b : Bytes) : Bool :=
  let lower (name : Bytes) := (cStr name).map fun c => QString.latin1Lower c.toUInt16
  lower a = lower b

/-- `QNetworkRequest`, of which every raw header has a name of its own. -/
structure QNetworkRequest (QUrl : Type) where
  url : QUrl
  rawHeaders : List (Bytes × Bytes) := []
  named : ∀ header ∈ rawHeaders, header.1 ≠ [] := by simp
  distinct : rawHeaders.Pairwise fun a b => sameName a.1 b.1 = false := by simp

namespace QNetworkRequest

variable {QUrl : Type} (req : QNetworkRequest QUrl)

def rawHeaderList : List Bytes := req.rawHeaders.map Prod.fst

/-- The value, which is empty if there is no such header. -/
def rawHeader (headerName : Bytes) : Bytes :=
  ((req.rawHeaders.find? fun header => sameName header.1 headerName).map Prod.snd).getD []

/-- The header replaces those of the same name, and one without a name is refused. -/
def setRawHeader (headerName value : Bytes) : QNetworkRequest QUrl :=
  if hname : headerName = [] then req
  else
    { url := req.url
      rawHeaders := (req.rawHeaders.filter fun header => !sameName header.1 headerName) ++
        [(headerName, value)]
      named := by
        intro header hheader
        obtain hheader | hheader := List.mem_append.1 hheader
        · exact req.named header (List.mem_filter.1 hheader).1
        · rwa [List.mem_singleton.1 hheader]
      distinct := by
        rw [List.pairwise_append]
        refine ⟨req.distinct.sublist List.filter_sublist, List.pairwise_singleton _ _, ?_⟩
        intro header hheader last hlast
        rw [List.mem_singleton.1 hlast]
        simpa using (List.mem_filter.1 hheader).2 }

end QNetworkRequest

/-! ### `OpNetwork` -/

/-- The operations of `QNetworkAccessManager` besides the unknown one. -/
inductive Operation where
  | head | get | put | post | delete
  deriving DecidableEq, Repr

/-- The number of an enumerator. -/
def Operation.toInt : Operation → ℤ
  | .head => 1
  | .get => 2
  | .put => 3
  | .post => 4
  | .delete => 5

variable (q : QtMaps)

/-- `OpNetwork::createRequest`: the message for a request with this id. -/
def createRequest (urlId : I32) (op : Operation) (req : QNetworkRequest q.QUrl)
    (outgoingData : Option Bytes) : Message :=
  let headers : OrdMap QString q.QVariant := req.rawHeaderList.foldl (fun headers headerName =>
    headers.insert (QString.fromAscii headerName) (q.ofByteArray (req.rawHeader headerName))) ∅
  { dstId := networkId
    msgType := msgFetchUrl
    msgValue := urlId
    payload := .ofBytes (q.write (q.ofInt op.toInt) ++ (q.write (q.ofUrl req.url) ++
      (q.write (q.ofMap headers) ++ q.write (q.ofByteArray (outgoingData.getD []))))) }

/-! ### `NetworkRequest` -/

/-- `NetworkRequest`, with the operation as the number that it was cast from. -/
structure NetworkRequest (QUrl : Type) where
  method : ℤ
  request : QNetworkRequest QUrl
  postData : Bytes
  urlId : I32
  srcId : I32

/-- The constructor of `NetworkRequest`, up to `start`. -/
def NetworkRequest.ofMessage (msg : Message) : NetworkRequest q.QUrl :=
  let (method, data) := q.read msg.payload.data
  let (url, data) := q.read data
  let (headers, data) := q.read data
  let (postData, _) := q.read data
  { method := q.toInt method
    request := (q.toMap headers).toList.foldl (fun request header =>
      request.setRawHeader (QString.toLatin1 header.1) (q.toByteArray header.2))
        { url := q.toUrl url }
    postData := q.toByteArray postData
    urlId := msg.msgValue
    srcId := msg.srcId }

/-- A request that the manager is asked for. -/
structure Issued (QUrl : Type) where
  op : Operation
  request : QNetworkRequest QUrl
  body : Option Bytes := none

/-- What `start` asks the manager for, and whether it sets `m_reply` before it is used. -/
structure Started (QUrl : Type) where
  issued : List (Issued QUrl) := []
  replySet : Bool := false

/-- `QNetworkAccessManager::GetOperation` -/
def getOperation : ℤ := 2

/-- `NetworkRequest::start`. There is no result if the loop of `processPostData` needs more
than `fuel` tests. -/
def start {QUrl : Type} (files : QString → Option Bytes) (fuel : ℕ) (r : NetworkRequest QUrl) :
    Option (Started QUrl) :=
  if r.method = getOperation then
    some { issued := [{ op := .get, request := r.request }], replySet := true }
  else if r.method = postOperation then
    (processPostData files fuel r.method r.postData).map fun (postData, _) =>
      { issued := [{ op := .post, request := r.request, body := some postData }]
        replySet := true }
  else some {}

end Network

end OpBrowser
